import TapeLang.Decimal
import TapeLang.Machine.Extend

/-! One step of a machine: extend the tape, find the rule for the symbol under the head, then write,
change state and move. A step that halts or fails keeps the extended tape and applies nothing.
Main statements: a step ends in one of four ways, `stepped`; no step changes the rules or the program
that the machine was made with, `rules_step` and `initial_step`; the count goes up when a rule was
applied, `count_step_of_applied`, and any other step does no more than extend the tape,
`step_of_ne_applied`; the head moves by one cell at most, `head_step`. -/

namespace TapeLang

inductive RunError
  | missingRule (symbol : Symbol) (state : State) (index : Nat)
  | nonNumericIncrement (symbol : Symbol) (rule : Key) (index : Nat)
  | nonNumericDecrement (symbol : Symbol) (rule : Key) (index : Nat)
  | overflow (symbol : Symbol) (rule : Key) (index : Nat)
  deriving DecidableEq, Repr

namespace RunError

def message : RunError → String
  | missingRule symbol state index => s!"Missing rule {symbol},{state} at index {index}"
  | nonNumericIncrement symbol rule index =>
    s!"Symbol {symbol} is non-numeric and can't be incremented with rule {rule.text} at index {index}"
  | nonNumericDecrement symbol rule index =>
    s!"Symbol {symbol} is non-numeric and can't be decremented with rule {rule.text} at index {index}"
  | overflow symbol rule index =>
    s!"Symbol {symbol} overflows when applying rule {rule.text} at index {index}"

end RunError

def newNumber (v : Int) (symbol : Symbol) (key : Key) (index : Nat) : Except RunError Symbol :=
  if Decimal.InRange v then .ok (Decimal.write v) else .error (.overflow symbol key index)

def Write.apply (w : Write) (symbol : Symbol) (key : Key) (index : Nat) :
    Except RunError (Option Symbol) :=
  match w with
  | .keep => .ok none
  | .literal s => .ok (some s)
  | .increment =>
    match Decimal.read? symbol with
    | none => .error (.nonNumericIncrement symbol key index)
    | some v => (newNumber (v + 1) symbol key index).map some
  | .decrement =>
    match Decimal.read? symbol with
    | none => .error (.nonNumericDecrement symbol key index)
    | some v => (newNumber (v - 1) symbol key index).map some

theorem newNumber_of_inRange {v : Int} (hv : Decimal.InRange v) (symbol : Symbol) (key : Key)
    (index : Nat) : newNumber v symbol key index = .ok (Decimal.write v) :=
  if_pos hv

theorem newNumber_eq_ok {v : Int} {symbol written : Symbol} {key : Key} {index : Nat}
    (h : newNumber v symbol key index = .ok written) : written = Decimal.write v := by
  unfold newNumber at h
  split at h
  · cases h
    rfl
  · cases h

theorem newNumber_eq_error {v : Int} {symbol : Symbol} {key : Key} {index : Nat} {e : RunError}
    (h : newNumber v symbol key index = .error e) : e = .overflow symbol key index := by
  unfold newNumber at h
  split at h
  · cases h
  · cases h
    rfl

namespace Write

variable {w : Write} {symbol : Symbol} {key : Key} {index : Nat}

/-- A cell gets a literal of the rule or a number in canonical form. -/
theorem eq_of_apply_eq_ok {written : Symbol} (h : w.apply symbol key index = .ok (some written)) :
    w = .literal written ∨ ∃ v, written = Decimal.write v := by
  have number {v : Int} (h : (newNumber v symbol key index).map some = .ok (some written)) :
      ∃ v, written = Decimal.write v := by
    cases hn : newNumber v symbol key index with
    | error e => rw [hn] at h; cases h
    | ok s => rw [hn] at h; cases h; exact ⟨v, newNumber_eq_ok hn⟩
  cases w with
  | keep => cases h
  | literal s => cases h; exact .inl rfl
  | increment =>
    rw [apply] at h
    split at h
    · cases h
    · exact .inr (number h)
  | decrement =>
    rw [apply] at h
    split at h
    · cases h
    · exact .inr (number h)

/-- Only a number can fail to be written. -/
theorem eq_of_apply_eq_error {e : RunError} (h : w.apply symbol key index = .error e) :
    (w = .increment ∧ e = .nonNumericIncrement symbol key index) ∨
      (w = .decrement ∧ e = .nonNumericDecrement symbol key index) ∨
      ((w = .increment ∨ w = .decrement) ∧ e = .overflow symbol key index) := by
  have number {v : Int} (h : (newNumber v symbol key index).map some = .error e) :
      e = .overflow symbol key index := by
    cases hn : newNumber v symbol key index with
    | error e' => rw [hn] at h; cases h; exact newNumber_eq_error hn
    | ok s => rw [hn] at h; cases h
  cases w with
  | keep => cases h
  | literal s => cases h
  | increment =>
    rw [apply] at h
    split at h
    · cases h; exact .inl ⟨rfl, rfl⟩
    · exact .inr (.inr ⟨.inl rfl, number h⟩)
  | decrement =>
    rw [apply] at h
    split at h
    · cases h; exact .inr (.inl ⟨rfl, rfl⟩)
    · exact .inr (.inr ⟨.inr rfl, number h⟩)

end Write

structure Machine where
  program : Program
  /-- The program that the machine was made with. -/
  initial : Program
  /-- How many rules have been applied. -/
  count : Nat
  deriving DecidableEq, Inhabited

inductive Step
  | applied
  | halted
  | failed (e : RunError)
  deriving DecidableEq, Repr

def Program.apply (p : Program) (t : Transition) (written : Option Symbol) : Program :=
  { p with
    tape := match written with
      | some symbol => p.tape.set p.index symbol
      | none => p.tape
    state := t.next.after p.state
    head := p.head + t.direction.offset }

theorem Program.length_tape_apply (p : Program) (t : Transition) (written : Option Symbol) :
    (p.apply t written).tape.length = p.tape.length := by
  cases written with
  | none => rfl
  | some symbol => exact List.length_set

namespace Machine

def ofProgram (p : Program) : Machine :=
  ⟨p, p, 0⟩

def stepOn (m : Machine) (p : Program) (symbol : Symbol) : Step × Machine :=
  match p.resolve symbol with
  | none => (.failed (.missingRule symbol p.state p.index), { m with program := p })
  | some (_, .halt) => (.halted, { m with program := p })
  | some (key, .transition t) =>
    match t.write.apply symbol key p.index with
    | .error e => (.failed e, { m with program := p })
    | .ok written => (.applied, { m with program := p.apply t written, count := m.count + 1 })

def step (m : Machine) : Step × Machine :=
  let p := m.program.extend
  m.stepOn p (p.tape.get ⟨p.index, m.program.index_extend_lt⟩)

def rule? (m : Machine) : Option (Key × Rule) :=
  if m.program.head < 0 then none
  else m.program.tape[m.program.index]?.bind m.program.resolve

theorem step_eq (m : Machine) : m.step = m.stepOn m.program.extend m.program.scanned := rfl

/-- Another tape, with the head at its start. -/
def setTape (m : Machine) (cells : List Symbol) : Machine :=
  { m with program := { m.program with tape := cells, head := 0 } }

def setState (m : Machine) (state : State) : Machine :=
  { m with program := { m.program with state } }

def reset (m : Machine) : Machine :=
  ofProgram m.initial

/-- A machine made with the current program. -/
def rebuild (m : Machine) : Machine :=
  ofProgram m.program

def extend (m : Machine) : Machine :=
  { m with program := m.program.extend }

/-- The four ways in which a step ends, each with its cause and what it leaves behind. -/
inductive Stepped (m : Machine) : Step × Machine → Prop
  | missing (hr : m.program.resolve m.program.scanned = none) :
      Stepped m (.failed (.missingRule m.program.scanned m.program.state m.program.extend.index),
        m.extend)
  | halted {k : Key} (hr : m.program.resolve m.program.scanned = some (k, .halt)) :
      Stepped m (.halted, m.extend)
  | faulty {k : Key} {t : Transition} {e : RunError}
      (hr : m.program.resolve m.program.scanned = some (k, .transition t))
      (hw : t.write.apply m.program.scanned k m.program.extend.index = .error e) :
      Stepped m (.failed e, m.extend)
  | applied {k : Key} {t : Transition} {written : Option Symbol}
      (hr : m.program.resolve m.program.scanned = some (k, .transition t))
      (hw : t.write.apply m.program.scanned k m.program.extend.index = .ok written) :
      Stepped m (.applied,
        { m with program := m.program.extend.apply t written, count := m.count + 1 })

theorem stepped (m : Machine) : m.Stepped m.step := by
  rw [step_eq, stepOn, Program.resolve_extend]
  split
  · next hr => exact .missing hr
  · next hr => exact .halted hr
  · next hr =>
    split
    · next hw => exact .faulty hr hw
    · next hw => exact .applied hr hw

theorem rules_step (m : Machine) : m.step.2.program.rules = m.program.rules := by
  have h := m.stepped
  generalize m.step = r at h
  cases h <;> rfl

theorem initial_step (m : Machine) : m.step.2.initial = m.initial := by
  have h := m.stepped
  generalize m.step = r at h
  cases h <;> rfl

theorem count_step_of_applied {m : Machine} (ha : m.step.1 = .applied) :
    m.step.2.count = m.count + 1 := by
  have h := m.stepped
  generalize m.step = r at h ha
  cases h with
  | applied hr hw => rfl
  | missing hr => cases ha
  | halted hr => cases ha
  | faulty hr hw => cases ha

theorem step_of_ne_applied {m : Machine} (ha : m.step.1 ≠ .applied) : m.step.2 = m.extend := by
  have h := m.stepped
  generalize m.step = r at h ha
  cases h with
  | applied hr hw => exact absurd rfl ha
  | missing hr => rfl
  | halted hr => rfl
  | faulty hr hw => rfl

theorem length_tape_step (m : Machine) :
    m.step.2.program.tape.length = m.program.extend.tape.length := by
  have h := m.stepped
  generalize m.step = r at h
  cases h with
  | missing hr => rfl
  | halted hr => rfl
  | faulty hr hw => rfl
  | applied hr hw => exact Program.length_tape_apply ..

/-- The head goes at most one cell further in a step. -/
theorem head_step (m : Machine) :
    m.program.extend.head - 1 ≤ m.step.2.program.head ∧
      m.step.2.program.head ≤ m.program.extend.head + 1 := by
  have h := m.stepped
  generalize m.step = r at h
  have extended : m.program.extend.head - 1 ≤ m.program.extend.head ∧
      m.program.extend.head ≤ m.program.extend.head + 1 := by omega
  cases h with
  | missing hr => exact extended
  | halted hr => exact extended
  | faulty hr hw => exact extended
  | @applied k t written hr hw =>
    obtain ⟨hl, hu⟩ := t.direction.offset_bounds
    change m.program.extend.head - 1 ≤ m.program.extend.head + t.direction.offset ∧
      m.program.extend.head + t.direction.offset ≤ m.program.extend.head + 1
    omega

end Machine

end TapeLang
