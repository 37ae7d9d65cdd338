import Mathlib.Algebra.Group.Int.Defs
import Mathlib.Algebra.Group.Nat.Defs
import TapeLang.Proofs.Source.Running

/-! The extent of a tape. A tape that grows by one blank at a time, in front until the head is not left of it
and then behind until it reaches the head, becomes the tape that a step works on, `grow_eq`. The head moves
by one cell at most, so it is never further off the tape than that, `near_step`, and from the second step on
a step adds one cell at most, `length_tape_step_le`. -/

namespace TapeLang

namespace Program

/-- A blank comes in front, and the head moves along, as long as the head is left of the tape. -/
def growFront (p : Program) : Option Program :=
  if p.head < 0 then { p with tape := blank :: p.tape, head := p.head + 1 } |>.growFront
  else some p
partial_fixpoint

def growBack (index : Nat) (p : Program) : Option Program :=
  if p.tape.length ≤ index then { p with tape := p.tape ++ [blank] } |>.growBack index
  else some p
partial_fixpoint

/-- The program whose tape has grown to the head, and the index of the head. A tape that grows for ever has no
result. -/
def grow (p : Program) : Option (Program × Nat) :=
  p.growFront.bind fun q => (q.growBack q.head.natAbs).map fun r => (r, q.head.natAbs)

/-- The head is on the tape or one cell off it. -/
def Near (p : Program) : Prop :=
  -1 ≤ p.head ∧ p.head ≤ p.tape.length

theorem growFront_eq (p : Program) :
    p.growFront =
      some { p with tape := List.replicate p.leftGap blank ++ p.tape, head := max 0 p.head } := by
  induction hg : p.leftGap generalizing p with
  | zero =>
    have h0 : 0 ≤ p.head := by
      simp only [leftGap] at hg
      omega
    rw [growFront, if_neg (Int.not_lt.2 h0), Int.max_eq_right h0]
    rfl
  | succ n ih =>
    have h0 : p.head < 0 := by
      simp only [leftGap] at hg
      omega
    have hmax : max 0 (p.head + 1) = max 0 p.head := by omega
    rw [growFront, if_pos h0, ih _ (by simp only [leftGap] at hg ⊢; omega), hmax]
    simp [List.replicate_succ']

theorem growBack_eq (index : Nat) (p : Program) :
    p.growBack index =
      some { p with tape := p.tape ++ List.replicate (index + 1 - p.tape.length) blank } := by
  induction hg : index + 1 - p.tape.length generalizing p with
  | zero =>
    rw [growBack, if_neg (by omega), List.replicate_zero, List.append_nil]
  | succ n ih =>
    have hlen : index + 1 - (p.tape ++ [blank]).length = n := by
      rw [List.length_append, List.length_singleton]
      omega
    rw [growBack, if_pos (by omega), ih _ hlen]
    simp [List.replicate_succ]

theorem grow_eq (p : Program) : p.grow = some (p.extend, p.extend.index) := by
  have hindex : (max 0 p.head).natAbs = p.extend.index := by
    simp only [index, head_extend]
    omega
  have hgap : p.extend.index + 1 - (List.replicate p.leftGap blank ++ p.tape).length = p.rightGap := by
    simp only [List.length_append, List.length_replicate, index, head_extend, leftGap, rightGap]
    omega
  rw [grow, growFront_eq, Option.bind_some, hindex, growBack_eq, hgap, ← tape_extend]
  rfl

end Program

namespace Machine

theorem near_step (m : Machine) : m.step.2.program.Near := by
  obtain ⟨h0, hlt⟩ := m.program.extend_onTape
  obtain ⟨hl, hu⟩ := m.head_step
  have hlen := m.length_tape_step
  exact ⟨by omega, by omega⟩

/-- A head that is one cell off is so on one side only. -/
theorem length_tape_step_le {m : Machine} (h : m.program.Near) :
    m.step.2.program.tape.length ≤ m.program.tape.length + 1 := by
  obtain ⟨hl, hu⟩ := h
  rw [length_tape_step, Program.length_tape_extend]
  simp only [Program.leftGap, Program.rightGap]
  omega

theorem near_after_succ (m : Machine) (n : Nat) : (m.after (n + 1)).program.Near :=
  (m.after n).near_step

/-- The first step gives an empty tape its cell, and each of the others adds one cell at most. -/
theorem length_tape_after_bounds {m : Machine} (h : m.program.head = 0) (n : Nat) :
    max m.program.tape.length 1 ≤ (m.after (n + 1)).program.tape.length ∧
      (m.after (n + 1)).program.tape.length ≤ max m.program.tape.length 1 + n := by
  induction n with
  | zero =>
    have hone : (m.after (0 + 1)).program.tape.length = max m.program.tape.length 1 := by
      rw [after, after, length_tape_step, Program.length_tape_extend]
      simp only [Program.leftGap, Program.rightGap, h]
      omega
    omega
  | succ n ih =>
    have hle := (m.after (n + 1)).length_tape_le_step
    have hle' := length_tape_step_le (m.near_after_succ n)
    rw [after]
    omega

end Machine

namespace Program

/-- Growing ends, wherever the head is, with the fewest blanks in front of and behind the tape that put the
head on it; growing again changes nothing, and the cell that a step reads is there. In a program that was
read from a text the head is never more than one cell off the tape afterwards, no step but the first adds
more than one cell to the greater of its number of cells and one, and a head whose tape has less than
`2 ^ 63` cells fits in 64 bits. -/
theorem extent_bounded (p : Program) :
    (∃ q index, p.grow = some (q, index) ∧
        q.tape =
          List.replicate (-p.head).toNat blank ++ p.tape ++
            List.replicate (p.head + 1 - p.tape.length).toNat blank ∧
        q.head = max 0 p.head ∧ (index : Int) = max 0 p.head ∧
        q.state = p.state ∧ q.rules = p.rules ∧
        q.grow = some (q, index) ∧
        ∃ h : index < q.tape.length, ∀ m : Machine, m.program = p →
          m.step = m.stepOn q (q.tape.get ⟨index, h⟩)) ∧
      ∀ text, parse text = .ok p → ∀ n,
        let m := (Machine.ofProgram p).after (n + 1)
        let cells := m.program.tape.length
        max p.tape.length 1 ≤ cells ∧ cells ≤ max p.tape.length 1 + n ∧
          -1 ≤ m.program.head ∧ m.program.head ≤ cells ∧
          m.step.2.program.tape.length ≤ cells + 1 ∧
          (cells < 2 ^ 63 → -2 ^ 63 ≤ m.program.head ∧ m.program.head < 2 ^ 63) := by
  constructor
  · refine ⟨p.extend, p.extend.index, p.grow_eq, p.tape_extend, p.head_extend, ?_, rfl, rfl, ?_,
      p.index_extend_lt, ?_⟩
    · simp only [index, head_extend]
      omega
    · rw [grow_eq, extend_extend]
    · rintro m rfl
      rfl
  · intro text h n m cells
    have hhead : p.head = 0 := head_of_addLines h
    have hbounds : max p.tape.length 1 ≤ cells ∧ cells ≤ max p.tape.length 1 + n :=
      Machine.length_tape_after_bounds (m := .ofProgram p) hhead n
    have hnear : m.program.Near := (Machine.ofProgram p).near_after_succ n
    refine ⟨hbounds.1, hbounds.2, hnear.1, hnear.2, Machine.length_tape_step_le hnear, ?_⟩
    intro hcells
    have hl : -1 ≤ m.program.head := hnear.1
    have hu : m.program.head ≤ cells := hnear.2
    omega

def leftForEver : Program where
  state := "S"
  rules := RuleTable.ofRules [(⟨.any, .literal "S"⟩, .transition ⟨.literal "x", .keep, .left⟩)]

/-- Each step adds its cell, and the head is left of them all. -/
theorem extent_bounded_leftForEver :
    parse "*,S=>x,*,<\nS" = .ok leftForEver ∧
      ((Machine.ofProgram leftForEver).after 3).program.tape = ["x", "x", "x"] ∧
      ((Machine.ofProgram leftForEver).after 3).program.tape.length ≤ max 0 1 + 2 ∧
      -1 ≤ ((Machine.ofProgram leftForEver).after 3).program.head ∧
      ∃ q index, ({ leftForEver with tape := ["a"], head := -2 } : Program).grow = some (q, index) ∧
        q.tape = [".", ".", "a"] := by
  have h : parse "*,S=>x,*,<\nS" = .ok leftForEver := by decide
  have ht : ((Machine.ofProgram leftForEver).after 3).program.tape = ["x", "x", "x"] := by decide
  obtain ⟨_, hbounds⟩ := extent_bounded leftForEver
  obtain ⟨_, hle, hl, _⟩ := hbounds _ h 2
  obtain ⟨⟨q, index, hq, htape, _⟩, _⟩ :=
    extent_bounded { leftForEver with tape := ["a"], head := -2 }
  exact ⟨h, ht, hle, hl, q, index, hq, htape⟩

end Program

end TapeLang
