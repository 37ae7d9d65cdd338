import TapeLang.Json.Value

/-! Shapes of values in JSON. A record is an object with each of its fields once, among others, or an array
of exactly its fields in order. A choice is the name of an alternative, or an object with that name
as its only field; an alternative without content has `null` there. Numbers fit in 64 bits. -/

namespace TapeLang.Json

def text? : Json → Option String
  | .string t => t
  | _ => none

def texts? : Json → Option (List String)
  | .array items => items.mapM text?
  | _ => none

def unsigned? : Json → Option Nat
  | .integer false n => if n < 18446744073709551616 then some n else none
  | _ => none

/-- A minus sign in front of zero makes no integer. -/
def signed? : Json → Option Int
  | .integer false n => if n < 9223372036854775808 then some n else none
  | .integer true n => if 0 < n ∧ n ≤ 9223372036854775808 then some (-n) else none
  | _ => none

/-- The value of the only field of a name. -/
def field? (fields : List (Option String × Json)) (name : String) : Option Json :=
  match fields.filter fun f => f.1 == some name with
  | [(_, v)] => some v
  | _ => none

/-- The fields of a record, in the order of their names. -/
def record? (names : List String) : Json → Option (List Json)
  | .array items => if items.length = names.length then some items else none
  | .object fields =>
    if fields.all fun f => f.1.isSome then names.mapM (field? fields) else none
  | _ => none

/-- The alternative of a choice, and its content if the object form has been used. -/
def choice? : Json → Option (String × Option Json)
  | .string (some name) => some (name, none)
  | .object [(some name, v)] => some (name, some v)
  | _ => none

def isBare : Option Json → Bool
  | none => true
  | some .null => true
  | some _ => false

end TapeLang.Json
