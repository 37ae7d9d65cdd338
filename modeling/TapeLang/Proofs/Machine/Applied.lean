import TapeLang.Machine.Run

/-! Rows of steps that apply rules. A machine makes any number of them, or there is a step that ends the row;
what a run with a limit does follows from which comes first. -/

namespace TapeLang

def Step.outcome : Step → Machine → Outcome
  | .applied, m => .cancelled m.count
  | .halted, m => .halted m.program.tape
  | .failed e, _ => .failed e

namespace Machine

variable {σ : Type} {m : Machine} {n j : Nat}

/-- The next `n` steps all apply a rule. -/
def Applies (m : Machine) (n : Nat) : Prop :=
  ∀ i < n, (m.after i).step.1 = .applied

/-- The next `j` steps apply a rule, and the step behind them does not. -/
def Ends (m : Machine) (j : Nat) : Prop :=
  m.Applies j ∧ (m.after j).step.1 ≠ .applied

instance (m : Machine) (n : Nat) : Decidable (m.Applies n) :=
  inferInstanceAs (Decidable (∀ i < n, _))

instance (m : Machine) (j : Nat) : Decidable (m.Ends j) :=
  inferInstanceAs (Decidable (_ ∧ _))

/-- The programs after each of the next `n` steps. -/
def trail (m : Machine) (n : Nat) : List Program :=
  (List.range n).map fun i => (m.after (i + 1)).program

def runEnding (observe : σ → Program → σ) (seen : σ) (m : Machine) (j : Nat) : Run σ where
  observed := (m.trail j).foldl observe seen
  outcome := (m.after j).step.1.outcome (m.after (j + 1))
  machine := m.after (j + 1)

theorem after_succ_left (m : Machine) (n : Nat) : m.after (n + 1) = m.step.2.after n := by
  induction n with
  | zero => rfl
  | succ n ih => rw [after, ih, after]

theorem trail_succ_left (m : Machine) (n : Nat) :
    m.trail (n + 1) = m.step.2.program :: m.step.2.trail n := by
  rw [trail, List.range_succ_eq_map, List.map_cons, List.map_map]
  refine congrArg (m.step.2.program :: ·) (List.map_congr_left fun i _ => ?_)
  exact congrArg program (m.after_succ_left (i + 1))

theorem length_trail (m : Machine) (n : Nat) : (m.trail n).length = n := by
  simp [trail]

theorem applies_zero (m : Machine) : m.Applies 0 :=
  fun i hi => absurd hi (Nat.not_lt_zero i)

theorem applies_succ_iff : m.Applies (n + 1) ↔ m.step.1 = .applied ∧ m.step.2.Applies n := by
  constructor
  · intro h
    refine ⟨h 0 (Nat.succ_pos n), fun i hi => ?_⟩
    rw [← after_succ_left]
    exact h (i + 1) (Nat.succ_lt_succ hi)
  · rintro ⟨h0, h⟩ i hi
    cases i with
    | zero => exact h0
    | succ i =>
      rw [after_succ_left]
      exact h i (Nat.lt_of_succ_lt_succ hi)

theorem applies_succ_iff_right :
    m.Applies (n + 1) ↔ m.Applies n ∧ (m.after n).step.1 = .applied := by
  constructor
  · exact fun h => ⟨fun i hi => h i (Nat.lt_succ_of_lt hi), h n (Nat.lt_succ_self n)⟩
  · rintro ⟨h, hn⟩ i hi
    rcases Nat.lt_succ_iff_lt_or_eq.1 hi with hi | rfl
    · exact h i hi
    · exact hn

theorem after_add (m : Machine) (a b : Nat) : m.after (a + b) = (m.after a).after b := by
  induction b with
  | zero => rfl
  | succ b ih => rw [← Nat.add_assoc, after, ih, after]

theorem applies_add_iff {a b : Nat} :
    m.Applies (a + b) ↔ m.Applies a ∧ (m.after a).Applies b := by
  induction b with
  | zero => exact ⟨fun h => ⟨h, applies_zero _⟩, fun h => h.1⟩
  | succ b ih =>
    rw [← Nat.add_assoc, applies_succ_iff_right, ih, applies_succ_iff_right, after_add, and_assoc]

theorem ends_zero_iff : m.Ends 0 ↔ m.step.1 ≠ .applied :=
  ⟨fun h => h.2, fun h => ⟨m.applies_zero, h⟩⟩

theorem ends_succ_iff : m.Ends (j + 1) ↔ m.step.1 = .applied ∧ m.step.2.Ends j := by
  rw [Ends, Ends, applies_succ_iff, after_succ_left, and_assoc]

/-- A row of `n` steps is there unless one before it has an end. -/
theorem applies_or_ends (m : Machine) (n : Nat) : m.Applies n ∨ ∃ j < n, m.Ends j := by
  induction n with
  | zero => exact .inl m.applies_zero
  | succ n ih =>
    rcases ih with h | ⟨j, hj, he⟩
    · by_cases hn : (m.after n).step.1 = .applied
      · exact .inl (applies_succ_iff_right.2 ⟨h, hn⟩)
      · exact .inr ⟨n, Nat.lt_succ_self n, h, hn⟩
    · exact .inr ⟨j, Nat.lt_succ_of_lt hj, he⟩

theorem count_after (h : m.Applies n) : (m.after n).count = m.count + n := by
  induction n with
  | zero => rfl
  | succ n ih =>
    obtain ⟨hn, hs⟩ := applies_succ_iff_right.1 h
    rw [after, count_step_of_applied hs, ih hn, Nat.add_assoc]

theorem rules_after (m : Machine) (k : Nat) : (m.after k).program.rules = m.program.rules := by
  induction k with
  | zero => rfl
  | succ k ih => rw [after, rules_step, ih]

theorem initial_after (m : Machine) (k : Nat) : (m.after k).initial = m.initial := by
  induction k with
  | zero => rfl
  | succ k ih => rw [after, initial_step, ih]

section Run

variable (observe : σ → Program → σ) (seen : σ)

theorem run_succ_of_applied (h : m.step.1 = .applied) (n : Nat) :
    m.run observe seen (n + 1) = m.step.2.run observe (observe seen m.step.2.program) n := by
  have hs : m.step = (.applied, m.step.2) := Prod.ext h rfl
  rw [run, hs]

theorem run_succ_of_ne_applied (h : m.step.1 ≠ .applied) (n : Nat) :
    m.run observe seen (n + 1) = ⟨seen, m.step.1.outcome m.step.2, m.step.2⟩ := by
  rw [run]
  split
  · next hs => exact absurd (congrArg Prod.fst hs) h
  · next hs => rw [hs]; rfl
  · next hs => rw [hs]; rfl

/-- A limit that is reached cuts the run behind as many steps, whatever the next one would do. -/
theorem run_of_applies (h : m.Applies n) :
    m.run observe seen n =
      ⟨(m.trail n).foldl observe seen, .cancelled (m.count + n), m.after n⟩ := by
  induction n generalizing m seen with
  | zero => rfl
  | succ n ih =>
    obtain ⟨ha, hn⟩ := applies_succ_iff.1 h
    rw [run_succ_of_applied observe seen ha, ih _ hn, trail_succ_left, after_succ_left,
      count_step_of_applied ha, Nat.add_right_comm]
    rfl

/-- A limit beyond the end of the row has no part in the run. -/
theorem run_of_ends (h : m.Ends j) (hj : j < n) :
    m.run observe seen n = m.runEnding observe seen j := by
  induction j generalizing m seen n with
  | zero =>
    obtain ⟨n, rfl⟩ := Nat.exists_eq_succ_of_ne_zero (Nat.ne_of_gt hj)
    exact run_succ_of_ne_applied observe seen h.2 n
  | succ j ih =>
    obtain ⟨n, rfl⟩ := Nat.exists_eq_succ_of_ne_zero (Nat.ne_zero_of_lt hj)
    obtain ⟨ha, he⟩ := ends_succ_iff.1 h
    rw [run_succ_of_applied observe seen ha, ih _ he (Nat.lt_of_succ_lt_succ hj), runEnding,
      runEnding, trail_succ_left, m.after_succ_left j, m.after_succ_left (j + 1)]
    rfl

end Run

end Machine

end TapeLang
