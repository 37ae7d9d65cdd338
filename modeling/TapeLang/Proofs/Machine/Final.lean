import TapeLang.Machine.Run

/-! Steps that apply no rule. Such a step does no more than extend the tape, so the next one finds the same
symbol, state and rules and ends alike, and the rule under the head tells why. -/

namespace TapeLang

namespace Program

/-- No rule is for the symbol under the head, or the one that is cannot count it up or down. -/
def Stuck (p : Program) : Prop :=
  p.resolve p.scanned = none ∨ ∃ k t e, p.resolve p.scanned = some (k, .transition t) ∧
    t.write.apply p.scanned k p.extend.index = .error e

theorem scanned_extend (p : Program) : p.extend.scanned = p.scanned := by
  have h := p.extend.getElem?_extend
  rw [extend_extend, getElem?_extend] at h
  exact (Option.some.inj h).symm

theorem head_extend_eq_add (p : Program) : p.extend.head = p.head + (-p.head).toNat := by
  rw [head_extend]
  omega

end Program

namespace Machine

/-- The rule under the head is the cause of such an end. -/
def Explains (m : Machine) : Step → Prop
  | .applied => False
  | .halted => ∃ k, m.rule? = some (k, .halt)
  | .failed (.missingRule _ _ _) => m.rule? = none
  | .failed (.nonNumericIncrement _ k _) =>
    ∃ t, m.rule? = some (k, .transition t) ∧ t.write = .increment
  | .failed (.nonNumericDecrement _ k _) =>
    ∃ t, m.rule? = some (k, .transition t) ∧ t.write = .decrement
  | .failed (.overflow _ k _) =>
    ∃ t, m.rule? = some (k, .transition t) ∧ (t.write = .increment ∨ t.write = .decrement)

/-- A step does not depend on whether the tape was extended before. -/
theorem step_extend (m : Machine) : m.extend.step = m.step := by
  have hp : m.extend.program.extend = m.program.extend := m.program.extend_extend
  have hs : m.extend.program.scanned = m.program.scanned := m.program.scanned_extend
  rw [step_eq, step_eq, hp, hs]
  rfl

theorem rule?_extend (m : Machine) : m.extend.rule? = m.program.resolve m.program.scanned := by
  have h0 : ¬ m.program.extend.head < 0 := Int.not_lt.2 m.program.extend_onTape.1
  change (if m.program.extend.head < 0 then none
    else m.program.extend.tape[m.program.extend.index]?.bind m.program.extend.resolve) = _
  rw [if_neg h0, m.program.getElem?_extend]
  rfl

variable {m : Machine}

theorem explains_extend (ha : m.step.1 ≠ .applied) : m.extend.Explains m.step.1 := by
  have h := m.stepped
  generalize m.step = r at h ha
  cases h with
  | missing hr => exact m.rule?_extend.trans hr
  | halted hr => exact ⟨_, m.rule?_extend.trans hr⟩
  | faulty hr hw =>
    rcases Write.eq_of_apply_eq_error hw with ⟨hk, rfl⟩ | ⟨hk, rfl⟩ | ⟨hk, rfl⟩
    · exact ⟨_, m.rule?_extend.trans hr, hk⟩
    · exact ⟨_, m.rule?_extend.trans hr, hk⟩
    · exact ⟨_, m.rule?_extend.trans hr, hk⟩
  | applied hr hw => exact absurd rfl ha

theorem step_of_resolve_eq_none (hr : m.program.resolve m.program.scanned = none) :
    m.step.1 =
      .failed (.missingRule m.program.scanned m.program.state m.program.extend.index) := by
  rw [step_eq, stepOn, Program.resolve_extend, hr]
  rfl

theorem step_of_resolve_eq_halt {k : Key}
    (hr : m.program.resolve m.program.scanned = some (k, .halt)) : m.step.1 = .halted := by
  rw [step_eq, stepOn, Program.resolve_extend, hr]

theorem resolve_eq_none_of_step {symbol : Symbol} {state : State} {index : Nat}
    (hs : m.step.1 = .failed (.missingRule symbol state index)) :
    m.program.resolve m.program.scanned = none := by
  have h := explains_extend (m := m) (by simp [hs])
  rw [hs] at h
  exact m.rule?_extend.symm.trans h

theorem resolve_of_step_eq_halted (hs : m.step.1 = .halted) :
    ∃ k, m.program.resolve m.program.scanned = some (k, .halt) := by
  have h := explains_extend (m := m) (by simp [hs])
  rw [hs] at h
  obtain ⟨k, hk⟩ := h
  exact ⟨k, m.rule?_extend.symm.trans hk⟩

theorem step_eq_halted_iff :
    m.step.1 = .halted ↔ ∃ k, m.program.resolve m.program.scanned = some (k, .halt) :=
  ⟨resolve_of_step_eq_halted, fun ⟨_, hr⟩ => step_of_resolve_eq_halt hr⟩

theorem exists_step_eq_failed_iff : (∃ e, m.step.1 = .failed e) ↔ m.program.Stuck := by
  constructor
  · rintro ⟨e, he⟩
    have h := m.stepped
    generalize m.step = r at h he
    cases h with
    | missing hr => exact .inl hr
    | faulty hr hw => exact .inr ⟨_, _, _, hr, hw⟩
    | halted hr => cases he
    | applied hr hw => cases he
  · rintro (hr | ⟨k, t, e, hr, hw⟩)
    · exact ⟨_, step_of_resolve_eq_none hr⟩
    · refine ⟨e, ?_⟩
      rw [step_eq, stepOn, Program.resolve_extend, hr]
      simp only [hw]

/-- After a step that applied no rule, any number of further steps leave the machine as it is. -/
theorem after_step (ha : m.step.1 ≠ .applied) (n : Nat) : m.step.2.after n = m.step.2 := by
  induction n with
  | zero => rfl
  | succ n ih => rw [after, ih, step_of_ne_applied ha, step_extend, step_of_ne_applied ha]

/-- A step that applies no rule keeps the state, the rules and the count, adds blanks on the side where the
head is off the tape, and leaves the head on the same cell. Each further step ends in the same way and
changes nothing, and the rule under the head is the cause. -/
theorem final_of_ne_applied (m : Machine) (ha : m.step.1 ≠ .applied) :
    let last := m.step.2
    (last.program.state = m.program.state ∧ last.program.rules = m.program.rules ∧
        last.initial = m.initial ∧ last.count = m.count) ∧
      last.program.tape =
        List.replicate (-m.program.head).toNat blank ++ m.program.tape ++
          List.replicate (m.program.head + 1 - m.program.tape.length).toNat blank ∧
      (last.program.head = m.program.head + (-m.program.head).toNat ∧ last.program.OnTape) ∧
      (∀ n, last.after n = last ∧ (last.after n).step = m.step) ∧
      last.Explains m.step.1 := by
  intro last
  have hl : last = m.extend := step_of_ne_applied ha
  refine ⟨?_, ?_, ?_, ?_, ?_⟩
  · rw [hl]
    exact ⟨rfl, rfl, rfl, rfl⟩
  · rw [hl]
    exact m.program.tape_extend
  · rw [hl]
    exact ⟨m.program.head_extend_eq_add, m.program.extend_onTape⟩
  · intro n
    have hn : last.after n = last := after_step ha n
    refine ⟨hn, ?_⟩
    rw [hn, hl, step_extend]
  · rw [hl]
    exact explains_extend ha

/-- A machine whose head is left of its tape and whose rule cannot count up the blank there. -/
def leftOfTape : Machine where
  program :=
    { tape := ["7"]
      state := "S"
      head := -2
      rules := RuleTable.ofRules
        [(⟨.any, .literal "S"⟩, .transition ⟨.increment, .keep, .right⟩)] }
  initial := {}
  count := 3

theorem final_leftOfTape :
    leftOfTape.step.1 = .failed (.nonNumericIncrement "." ⟨.any, .literal "S"⟩ 0) ∧
      leftOfTape.step.2.program.tape = [".", ".", "7"] ∧
      leftOfTape.step.2.program.head = 0 ∧
      (∀ n, (leftOfTape.step.2.after n).step = leftOfTape.step) ∧
      leftOfTape.step.2.Explains leftOfTape.step.1 := by
  have hs : leftOfTape.step.1 = .failed (.nonNumericIncrement "." ⟨.any, .literal "S"⟩ 0) := by
    decide +kernel
  have ha : leftOfTape.step.1 ≠ .applied := by
    rw [hs]
    exact Step.noConfusion
  obtain ⟨_, ht, ⟨hh, _⟩, hn, he⟩ := final_of_ne_applied leftOfTape ha
  exact ⟨hs, ht, hh, fun n => (hn n).2, he⟩

end Machine

end TapeLang
