/-! Rules. A rule's key says which symbol and which state it is for, its body what to do there: stop, or
write, change state and move. Main statements: a key of no marker literals is read off its text,
`Key.ofFields_text`, and the keys that may serve a symbol in a state are those whose two patterns accept
them, `Key.mem_candidates`. -/

namespace TapeLang

abbrev Symbol := String

abbrev State := String

/-- One half of a key: anything, or exactly one symbol or state. -/
inductive Pattern
  | any
  | literal (text : String)
  deriving DecidableEq, Repr, Inhabited

structure Key where
  symbol : Pattern
  state : Pattern
  deriving DecidableEq, Repr, Inhabited

inductive Write
  | literal (symbol : Symbol)
  | increment
  | decrement
  | keep
  deriving DecidableEq, Repr, Inhabited

inductive NextState
  | literal (state : State)
  | keep
  deriving DecidableEq, Repr, Inhabited

inductive Direction
  | left
  | right
  | stay
  deriving DecidableEq, Repr, Inhabited

structure Transition where
  write : Write
  next : NextState
  direction : Direction
  deriving DecidableEq, Repr, Inhabited

inductive Rule
  | halt
  | transition (t : Transition)
  deriving DecidableEq, Repr, Inhabited

namespace Pattern

def ofField (field : String) : Pattern :=
  if field = "*" then any else literal field

def text : Pattern → String
  | any => "*"
  | literal s => s

def accepts (p : Pattern) (value : String) : Bool :=
  match p with
  | any => true
  | literal s => s == value

def literal? : Pattern → Option String
  | any => none
  | literal s => some s

theorem literal?_eq_some_iff {p : Pattern} {s : String} : p.literal? = some s ↔ p = literal s := by
  cases p <;> simp [literal?]

@[simp] theorem text_ofField (field : String) : (ofField field).text = field := by
  unfold ofField
  split
  · next h => exact h.symm
  · rfl

theorem ofField_text {p : Pattern} (h : p ≠ literal "*") : ofField p.text = p := by
  cases p with
  | any => rfl
  | literal s =>
    have hs : s ≠ "*" := fun e => h (e ▸ rfl)
    simp [text, ofField, hs]

@[simp] theorem accepts_literal (s value : String) : (literal s).accepts value = true ↔ s = value := by
  simp [accepts]

@[simp] theorem accepts_any (value : String) : any.accepts value = true := rfl

end Pattern

namespace Key

def ofFields (symbol state : String) : Key :=
  ⟨Pattern.ofField symbol, Pattern.ofField state⟩

def text (k : Key) : String :=
  k.symbol.text ++ "," ++ k.state.text

/-- The keys that may serve a symbol in a state, the most specific first. A literal state counts for
more than a literal symbol. -/
def candidates (symbol : Symbol) (state : State) : List Key :=
  [⟨.literal symbol, .literal state⟩, ⟨.any, .literal state⟩, ⟨.literal symbol, .any⟩, ⟨.any, .any⟩]

theorem mem_candidates {k : Key} {symbol : Symbol} {state : State} :
    k ∈ candidates symbol state ↔
      k.symbol.accepts symbol = true ∧ k.state.accepts state = true := by
  obtain ⟨s, t⟩ := k
  cases s <;> cases t <;> simp [candidates]

theorem ofFields_text {k : Key} (hs : k.symbol ≠ .literal "*") (ht : k.state ≠ .literal "*") :
    ofFields k.symbol.text k.state.text = k := by
  simp [ofFields, Pattern.ofField_text hs, Pattern.ofField_text ht]

end Key

namespace Write

def ofField (field : String) : Write :=
  if field = "+" then increment
  else if field = "-" then decrement
  else if field = "*" then keep
  else literal field

def text : Write → String
  | literal s => s
  | increment => "+"
  | decrement => "-"
  | keep => "*"

@[simp] theorem text_ofField (field : String) : (ofField field).text = field := by
  unfold ofField
  split
  · next h => exact h.symm
  · split
    · next h => exact h.symm
    · split
      · next h => exact h.symm
      · rfl

end Write

namespace NextState

def ofField (field : String) : NextState :=
  if field = "*" then keep else literal field

def text : NextState → String
  | literal s => s
  | keep => "*"

def after (n : NextState) (state : State) : State :=
  match n with
  | literal s => s
  | keep => state

@[simp] theorem after_literal (s state : State) : (literal s).after state = s := rfl

@[simp] theorem after_keep (state : State) : keep.after state = state := rfl

@[simp] theorem text_ofField (field : String) : (ofField field).text = field := by
  unfold ofField
  split
  · next h => exact h.symm
  · rfl

end NextState

namespace Direction

/-- An empty field is the order to stay; any other field but the two arrows is none. -/
def ofField? (field : String) : Option Direction :=
  if field = "<" then some left
  else if field = ">" then some right
  else if field = "" then some stay
  else none

def text : Direction → String
  | left => "<"
  | right => ">"
  | stay => ""

def offset : Direction → Int
  | left => -1
  | right => 1
  | stay => 0

theorem offset_bounds (d : Direction) : -1 ≤ d.offset ∧ d.offset ≤ 1 := by
  cases d <;> decide

@[simp] theorem ofField?_text (d : Direction) : ofField? d.text = some d := by
  cases d <;> rfl

theorem text_of_ofField? {field : String} {d : Direction} (h : ofField? field = some d) :
    d.text = field := by
  unfold ofField? at h
  split at h
  · next e => simp_all [← Option.some.inj h, text]
  · split at h
    · next e => simp_all [← Option.some.inj h, text]
    · split at h
      · next e => simp_all [← Option.some.inj h, text]
      · cases h

end Direction

namespace Rule

/-- A body of three empty fields halts. -/
def ofFields? (write next direction : String) : Option Rule :=
  if write = "" ∧ next = "" ∧ direction = "" then some halt
  else (Direction.ofField? direction).map fun d =>
    transition ⟨Write.ofField write, NextState.ofField next, d⟩

def text : Rule → String
  | halt => ",,"
  | transition t => t.write.text ++ "," ++ t.next.text ++ "," ++ t.direction.text

def isHalt : Rule → Bool
  | halt => true
  | transition _ => false

def next? : Rule → Option State
  | transition ⟨_, .literal s, _⟩ => some s
  | _ => none

/-- A transition stays in its state or moves into the one that it names. -/
theorem after_or_next? (t : Transition) (state : State) :
    t.next.after state = state ∨ (transition t).next? = some (t.next.after state) := by
  obtain ⟨w, n, d⟩ := t
  cases n with
  | literal s => exact .inr rfl
  | keep => exact .inl rfl

end Rule

end TapeLang
