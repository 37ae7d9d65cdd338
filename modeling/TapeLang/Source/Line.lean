import TapeLang.Text.Space
import TapeLang.Rule.Basic

/-! One line of source. White space is dropped first. A line with an arrow is a rule, a line with commas
and no arrow the tape, any other line the state; one or two commas alone could be either a tape or
the start of a rule and are refused. A rule has five fields,

  symbol, state => write, next state, direction

and no field holds a comma or an arrow. -/

namespace TapeLang.Source

inductive Line
  | rule (key : Key) (body : Rule)
  | tape (cells : List Symbol)
  | state (name : State)
  deriving DecidableEq, Repr

inductive LineFault
  /-- One or two commas, which make neither a tape nor a rule. -/
  | ambiguous (text : String)
  | direction (field : String)
  /-- The separators are not those of a rule, from the first five fields on. -/
  | shape
  /-- More text behind the fifth field. -/
  | surplus
  deriving DecidableEq, Repr

structure Fields where
  symbol : String
  state : String
  write : String
  next : String
  direction : String
  deriving DecidableEq, Repr

def hasArrow : List Char → Bool
  | '=' :: '>' :: _ => true
  | _ :: cs => hasArrow cs
  | [] => false

/-- The text up to the first comma or arrow, and the rest from there on. -/
def takeField : List Char → List Char × List Char
  | [] => ([], [])
  | ',' :: cs => ([], ',' :: cs)
  | '=' :: '>' :: cs => ([], '=' :: '>' :: cs)
  | c :: cs => (c :: (takeField cs).1, (takeField cs).2)

def afterComma? : List Char → Option (List Char)
  | ',' :: cs => some cs
  | _ => none

def afterArrow? : List Char → Option (List Char)
  | '=' :: '>' :: cs => some cs
  | _ => none

/-- The fields at the start of a text, and what stands behind the fifth. -/
def readFields? (cs : List Char) : Option (Fields × List Char) := do
  let (symbol, cs) := takeField cs
  let (state, cs) := takeField (← afterComma? cs)
  let (write, cs) := takeField (← afterArrow? cs)
  let (next, cs) := takeField (← afterComma? cs)
  let (direction, cs) := takeField (← afterComma? cs)
  let text := String.ofList
  return (⟨text symbol, text state, text write, text next, text direction⟩, cs)

def Fields.toLine (f : Fields) : Except LineFault Line :=
  match Rule.ofFields? f.write f.next f.direction with
  | some body => .ok (.rule (Key.ofFields f.symbol f.state) body)
  | none => .error (.direction f.direction)

def readRule (cs : List Char) : Except LineFault Line :=
  match readFields? cs with
  | none => .error .shape
  | some (f, []) => f.toLine
  | some (_, _ :: _) => .error .surplus

def Line.ofSqueezed (cs : List Char) : Except LineFault Line :=
  let commas := cs.count ','
  if commas = 1 ∨ commas = 2 then .error (.ambiguous (String.ofList cs))
  else if hasArrow cs then readRule cs
  else if commas = 0 then .ok (.state (String.ofList cs))
  else .ok (.tape ((cs.splitOn ',').map String.ofList))

def Line.read (raw : List Char) : Except LineFault Line :=
  Line.ofSqueezed (Text.squeeze raw)

/-- What a field may hold: neither a comma nor an arrow. -/
def IsField (cs : List Char) : Prop :=
  ',' ∉ cs ∧ hasArrow cs = false

theorem takeField_append (cs : List Char) : (takeField cs).1 ++ (takeField cs).2 = cs := by
  fun_induction takeField cs <;> simp_all

theorem Line.read_squeeze (raw : List Char) : Line.read (Text.squeeze raw) = Line.read raw := by
  simp [Line.read, Text.squeeze_squeeze]

end TapeLang.Source
