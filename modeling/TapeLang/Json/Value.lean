/-! JSON values. Objects keep the order of their fields and fields of one name. A string has a text
unless an escape in it names half a surrogate pair. A number with a fraction or an exponent is only
known to be one. -/

namespace TapeLang

inductive Json
  | null
  | bool (b : Bool)
  | integer (negative : Bool) (magnitude : Nat)
  | fractional
  | string (text : Option String)
  | array (items : List Json)
  | object (fields : List (Option String × Json))
  deriving Inhabited

namespace Json

def ofString (s : String) : Json :=
  .string (some s)

def ofNat (n : Nat) : Json :=
  .integer false n

def ofInt (v : Int) : Json :=
  .integer (decide (v < 0)) v.natAbs

def ofFields (fields : List (String × Json)) : Json :=
  .object (fields.map fun f => (some f.1, f.2))

def ofStrings (texts : List String) : Json :=
  .array (texts.map ofString)

end Json

end TapeLang
