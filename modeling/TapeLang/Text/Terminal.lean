import TapeLang.Text.Quoted

/-! Text for a terminal. Bell, backspace, form feed, escape, delete and the controls from U+0080 to U+009F,
with which text could steer a terminal, are spelled out; everything else stays as it is. -/

namespace TapeLang.Text

def terminalChar (c : Char) : List Char :=
  match c with
  | '\x07' => "\\x07".toList
  | '\x08' => "\\x08".toList
  | '\x0c' => "\\x0c".toList
  | '\x1b' => "\\x1b".toList
  | '\x7f' => "\\x7f".toList
  | c => if '\u0080' ≤ c ∧ c ≤ '\u009f' then codePoint c else [c]

def forTerminal (s : String) : String :=
  String.ofList (s.toList.flatMap terminalChar)

end TapeLang.Text
