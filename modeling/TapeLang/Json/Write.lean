import TapeLang.Json.Value

/-! The compact text of a JSON value. In strings the quote, the backslash and the controls are escaped,
the commonest controls by a letter; all else stands for itself. A text never spans lines. -/

namespace TapeLang.Json

def stringChar (c : Char) : List Char :=
  match c with
  | '"' => ['\\', '"']
  | '\\' => ['\\', '\\']
  | '\x08' => ['\\', 'b']
  | '\t' => ['\\', 't']
  | '\n' => ['\\', 'n']
  | '\x0c' => ['\\', 'f']
  | '\r' => ['\\', 'r']
  | c =>
    if c.toNat < 0x20 then
      ['\\', 'u', '0', '0', (c.toNat / 16).digitChar, (c.toNat % 16).digitChar]
    else [c]

def stringChars (s : String) : List Char :=
  '"' :: s.toList.flatMap stringChar ++ ['"']

/-- A string without a text has no written form; `null` stands for it. -/
def textChars : Option String → List Char
  | some s => stringChars s
  | none => "null".toList

mutual

def chars : Json → List Char
  | .null => "null".toList
  | .bool true => "true".toList
  | .bool false => "false".toList
  | .integer true n => '-' :: Nat.toDigits 10 n
  | .integer false n => Nat.toDigits 10 n
  | .fractional => "null".toList
  | .string t => textChars t
  | .array items => '[' :: itemChars items
  | .object fields => '\x7b' :: fieldChars fields

def itemChars : List Json → List Char
  | [] => [']']
  | [v] => v.chars ++ [']']
  | v :: rest => v.chars ++ ',' :: itemChars rest

def fieldChars : List (Option String × Json) → List Char
  | [] => ['\x7d']
  | [(k, v)] => textChars k ++ ':' :: v.chars ++ ['\x7d']
  | (k, v) :: rest => textChars k ++ ':' :: v.chars ++ ',' :: fieldChars rest

end

def write (v : Json) : String :=
  String.ofList v.chars

end TapeLang.Json
