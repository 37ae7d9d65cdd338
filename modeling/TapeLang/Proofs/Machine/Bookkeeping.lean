import Mathlib.Data.List.DropRight
import TapeLang.Proofs.Machine.Interrupted

/-! What a machine keeps in whatever way it is used. The operations that make steps leave the machine as so many
calls of `step` do, `perform_of_makesSteps`; so the rules and the program that the machine was made with
stay, `Kept.perform`, the count goes up with the applied rules alone, `count_perform`, and a reset machine is
as new. -/

namespace TapeLang

inductive Operation
  | step
  | run
  | runLimited (n : Nat)
  | setTape (cells : List Symbol)
  | setState (state : State)
  | rule
  | reset
  deriving DecidableEq

inductive Answer
  | step (s : Step)
  /-- How a run came out, and the programs that its observer was shown. -/
  | run (o : Outcome) (seen : List Program)
  | rule (found : Option (Key × Rule))
  | done
  deriving DecidableEq

def Outcome.lastStep : Outcome → List Step
  | halted _ => [.halted]
  | failed e => [.failed e]
  | cancelled _ => []

namespace Answer

/-- What the steps that were made have come to. A run shows its observer a program for each applied rule. -/
def steps : Answer → List Step
  | step s => [s]
  | run o seen => List.replicate seen.length .applied ++ o.lastStep
  | rule _ => []
  | done => []

def seen : Answer → List Program
  | run _ seen => seen
  | _ => []

def ofRun (r : Run (List Program)) : Answer × Machine :=
  (run r.outcome r.observed, r.machine)

end Answer

namespace Operation

def record (seen : List Program) (p : Program) : List Program :=
  seen ++ [p]

/-- The operation on a machine. A run that never ends has no result. -/
def perform (m : Machine) : Operation → Option (Answer × Machine)
  | step => some (.step m.step.1, m.step.2)
  | run => (m.runToEnd record []).map Answer.ofRun
  | runLimited n => (m.runLimited record [] n).map Answer.ofRun
  | setTape cells => some (.done, m.setTape cells)
  | setState state => some (.done, m.setState state)
  | rule => some (.rule m.rule?, m)
  | reset => some (.done, m.reset)

def makesSteps : Operation → Bool
  | step => true
  | run => true
  | runLimited _ => true
  | _ => false

end Operation

abbrev Uses := List (Operation × Answer)

namespace Uses

def steps (l : Uses) : List Step :=
  l.flatMap fun u => u.2.steps

def sinceReset (l : Uses) : Uses :=
  l.rtakeWhile fun u => u.1 ≠ .reset

end Uses

namespace Machine

/-- The operations, one behind the other. -/
def perform (m : Machine) : List Operation → Option (Uses × Machine)
  | [] => some ([], m)
  | op :: ops =>
    (op.perform m).bind fun r => (r.2.perform ops).map fun rest => ((op, r.1) :: rest.1, rest.2)

def verdicts (m : Machine) (k : Nat) : List Step :=
  (List.range k).map fun i => (m.after i).step.1

variable {m next : Machine} {a : Answer} {op : Operation} {n j k : Nat}

theorem perform_append (m : Machine) (ops more : List Operation) :
    m.perform (ops ++ more) =
      (m.perform ops).bind fun r => (r.2.perform more).map fun s => (r.1 ++ s.1, s.2) := by
  induction ops generalizing m with
  | nil => simp [perform]
  | cons op ops ih =>
    simp only [List.cons_append, perform, Option.bind_assoc]
    refine congrArg _ (funext fun r => ?_)
    rw [ih]
    cases r.2.perform ops with
    | none => rfl
    | some rest => simp [Function.comp_def]

theorem perform_concat (m : Machine) (ops : List Operation) (op : Operation) :
    m.perform (ops ++ [op]) =
      (m.perform ops).bind fun r => (op.perform r.2).map fun s => (r.1 ++ [(op, s.1)], s.2) := by
  rw [perform_append]
  refine congrArg _ (funext fun r => ?_)
  cases h : op.perform r.2 <;> simp [perform, h]

section Steps

theorem verdicts_succ (m : Machine) (k : Nat) :
    m.verdicts (k + 1) = m.verdicts k ++ [(m.after k).step.1] := by
  simp [verdicts, List.range_succ]

theorem verdicts_of_applies (h : m.Applies k) : m.verdicts k = List.replicate k .applied := by
  rw [List.eq_replicate_iff]
  refine ⟨by simp [verdicts], ?_⟩
  intro s hs
  obtain ⟨i, hi, rfl⟩ := List.mem_map.1 hs
  exact h i (List.mem_range.1 hi)

theorem count_step (m : Machine) : m.step.2.count = m.count + [m.step.1].count .applied := by
  by_cases ha : m.step.1 = .applied
  · rw [count_step_of_applied ha, ha]
    rfl
  · rw [step_of_ne_applied ha, List.count_singleton, if_neg (by simpa using ha)]
    rfl

theorem count_after_eq (m : Machine) (k : Nat) :
    (m.after k).count = m.count + (m.verdicts k).count .applied := by
  induction k with
  | zero => rfl
  | succ k ih => rw [after, count_step, ih, verdicts_succ, List.count_append, Nat.add_assoc]

theorem foldl_record (seen ps : List Program) : ps.foldl Operation.record seen = seen ++ ps := by
  induction ps generalizing seen with
  | nil => exact (List.append_nil seen).symm
  | cons p ps ih => rw [List.foldl_cons, ih, Operation.record, List.append_assoc, List.singleton_append]

theorem lastStep_outcome {s : Step} (h : s ≠ .applied) (last : Machine) :
    (s.outcome last).lastStep = [s] := by
  cases s with
  | applied => exact absurd rfl h
  | halted => rfl
  | failed e => rfl

/-- What a row of steps leaves behind, as an answer tells of it. -/
def Makes (m : Machine) (r : Answer × Machine) : Prop :=
  ∃ k, r.2 = m.after k ∧ r.1.steps = m.verdicts k ∧ ∀ q ∈ r.1.seen, ∃ i, q = (m.after i).program

theorem exists_of_mem_trail {q : Program} (h : q ∈ m.trail n) : ∃ i, q = (m.after i).program := by
  obtain ⟨i, _, rfl⟩ := List.mem_map.1 h
  exact ⟨i + 1, rfl⟩

theorem makes_of_applies (h : m.Applies n) : m.Makes (Answer.ofRun (m.run Operation.record [] n)) := by
  rw [run_of_applies _ _ h, foldl_record, List.nil_append]
  refine ⟨n, rfl, ?_, fun q hq => exists_of_mem_trail hq⟩
  change List.replicate (m.trail n).length Step.applied ++ [] = _
  rw [length_trail, List.append_nil, verdicts_of_applies h]

theorem makes_of_ends (h : m.Ends j) : m.Makes (Answer.ofRun (m.runEnding Operation.record [] j)) := by
  rw [runEnding, foldl_record, List.nil_append]
  refine ⟨j + 1, rfl, ?_, fun q hq => exists_of_mem_trail hq⟩
  change List.replicate (m.trail j).length Step.applied ++ ((m.after j).step.1.outcome _).lastStep = _
  rw [length_trail, lastStep_outcome h.2, verdicts_succ, verdicts_of_applies h.1]

theorem perform_runLimited (m : Machine) (n : Nat) :
    (Operation.runLimited n).perform m = some (Answer.ofRun (m.run Operation.record [] n)) := by
  rw [Operation.perform, runLimited_eq]
  rfl

theorem perform_run (h : m.Ends j) :
    Operation.run.perform m = some (Answer.ofRun (m.runEnding Operation.record [] j)) := by
  rw [Operation.perform, runToEnd_of_ends h]
  rfl

/-- The operations that make steps make those of so many calls of `step`. -/
theorem perform_of_makesSteps (hop : op.makesSteps = true) (h : op.perform m = some (a, next)) :
    m.Makes (a, next) := by
  cases op with
  | step =>
    cases h
    exact ⟨1, rfl, rfl, nofun⟩
  | run =>
    obtain ⟨r, hr, _⟩ := Option.map_eq_some_iff.1 h
    obtain ⟨j, hj⟩ := exists_ends_of_runToEnd hr
    rw [perform_run hj, Option.some.injEq] at h
    rw [← h]
    exact makes_of_ends hj
  | runLimited n =>
    rw [perform_runLimited, Option.some.injEq] at h
    rw [← h]
    rcases m.applies_or_ends n with ha | ⟨j, hj, he⟩
    · exact makes_of_applies ha
    · rw [run_of_ends _ _ he hj]
      exact makes_of_ends he
  | setTape _ | setState _ | rule | reset => cases hop

end Steps

section Kept

theorem count_perform_of_not_makesSteps (hop : op.makesSteps = false) (hr : op ≠ .reset)
    (h : op.perform m = some (a, next)) : next.count = m.count ∧ a.steps = [] := by
  cases op with
  | step | run | runLimited _ => cases hop
  | reset => exact absurd rfl hr
  | setTape _ | setState _ | rule =>
    cases h
    exact ⟨rfl, rfl⟩

theorem count_perform (hr : op ≠ .reset) (h : op.perform m = some (a, next)) :
    next.count = m.count + a.steps.count .applied := by
  cases hop : op.makesSteps with
  | true =>
    obtain ⟨k, rfl, hs, _⟩ := perform_of_makesSteps hop h
    rw [count_after_eq, hs]
  | false =>
    obtain ⟨hc, hs⟩ := count_perform_of_not_makesSteps hop hr h
    rw [hc, hs]
    rfl

variable {p : Program} {ops : List Operation} {l : Uses}

structure Kept (p : Program) (m : Machine) : Prop where
  rules : m.program.rules = p.rules
  initial : m.initial = p

theorem Kept.after (h : m.Kept p) (k : Nat) : (m.after k).Kept p :=
  ⟨(m.rules_after k).trans h.rules, (m.initial_after k).trans h.initial⟩

theorem Kept.reset_eq (h : m.Kept p) : m.reset = ofProgram p := by
  rw [reset, h.initial]

theorem Kept.perform (h : m.Kept p) (hop : op.perform m = some (a, next)) :
    next.Kept p ∧ ∀ q ∈ a.seen, q.rules = p.rules := by
  cases hm : op.makesSteps with
  | true =>
    obtain ⟨k, rfl, _, hseen⟩ := perform_of_makesSteps hm hop
    refine ⟨h.after k, ?_⟩
    intro q hq
    obtain ⟨i, rfl⟩ := hseen q hq
    exact (h.after i).rules
  | false =>
    cases op with
    | step | run | runLimited _ => cases hm
    | setTape _ | setState _ | rule =>
      cases hop
      exact ⟨⟨h.rules, h.initial⟩, nofun⟩
    | reset =>
      cases hop
      rw [h.reset_eq]
      exact ⟨⟨rfl, rfl⟩, nofun⟩

/-- A sequence of operations that comes to its end has come to the one before it. -/
theorem exists_of_perform_concat (h : m.perform (ops ++ [op]) = some (l, next)) :
    ∃ l' m' a, m.perform ops = some (l', m') ∧ op.perform m' = some (a, next) ∧
      l = l' ++ [(op, a)] := by
  rw [perform_concat] at h
  obtain ⟨⟨l', m'⟩, hl, h⟩ := Option.bind_eq_some_iff.1 h
  obtain ⟨⟨a, m''⟩, ha, he⟩ := Option.map_eq_some_iff.1 h
  cases he
  exact ⟨l', m', a, hl, ha, rfl⟩

theorem kept_of_perform (h : (ofProgram p).perform ops = some (l, m)) :
    m.Kept p ∧ ∀ u ∈ l, ∀ q ∈ u.2.seen, q.rules = p.rules := by
  induction ops using List.reverseRecOn generalizing l m with
  | nil =>
    cases h
    exact ⟨⟨rfl, rfl⟩, List.forall_mem_nil _⟩
  | append_singleton ops op ih =>
    obtain ⟨l', m', a, hl, ha, rfl⟩ := exists_of_perform_concat h
    obtain ⟨hkept, hseen⟩ := ih hl
    obtain ⟨hnext, ha⟩ := hkept.perform ha
    refine ⟨hnext, List.forall_mem_append.2 ⟨hseen, ?_⟩⟩
    exact List.forall_mem_singleton.2 ha

theorem count_of_perform (h : (ofProgram p).perform ops = some (l, m)) :
    m.count = l.sinceReset.steps.count .applied := by
  induction ops using List.reverseRecOn generalizing l m with
  | nil =>
    cases h
    rfl
  | append_singleton ops op ih =>
    obtain ⟨l', m', a, hl, ha, rfl⟩ := exists_of_perform_concat h
    by_cases hr : op = .reset
    · subst hr
      cases ha
      rw [Uses.sinceReset, List.rtakeWhile_concat_neg _ _ _ (by simp)]
      rfl
    · rw [Uses.sinceReset, List.rtakeWhile_concat_pos _ _ _ (by simpa using hr), count_perform hr ha,
        ih hl]
      simp [Uses.steps, Uses.sinceReset]

end Kept

/-- In whatever way a machine is used, its rules stay those of the program that it was made with, also while a
run is observed, and its count is the number of rules applied since it was made or last reset: the
operations that make steps make those of so many calls of `step`, and of the others none but a reset
touches the count. Behind a reset all operations have the answers that they have on a new machine, and leave
the same machine. -/
theorem bookkeeping {p : Program} {ops : List Operation} {l : Uses} {m : Machine}
    (h : (ofProgram p).perform ops = some (l, m)) :
    (m.program.rules = p.rules ∧ ∀ u ∈ l, ∀ q ∈ u.2.seen, q.rules = p.rules) ∧
      m.count = l.sinceReset.steps.count .applied ∧
      (∀ (op : Operation) (a : Answer) (next : Machine), op.perform m = some (a, next) →
        (op.makesSteps = true → ∃ k, next = m.after k ∧ a.steps = m.verdicts k) ∧
          (op.makesSteps = false → op ≠ .reset → next.count = m.count ∧ a.steps = [])) ∧
      ∀ later, (ofProgram p).perform (ops ++ .reset :: later) =
        ((ofProgram p).perform later).map fun r => (l ++ (.reset, .done) :: r.1, r.2) := by
  obtain ⟨hkept, hseen⟩ := kept_of_perform h
  refine ⟨⟨hkept.rules, hseen⟩, count_of_perform h, ?_, ?_⟩
  · intro op a next ha
    refine ⟨fun hop => ?_, fun hop hr => count_perform_of_not_makesSteps hop hr ha⟩
    obtain ⟨k, hnext, hs, _⟩ := perform_of_makesSteps hop ha
    exact ⟨k, hnext, hs⟩
  · intro later
    rw [perform_append, h, Option.bind_some, perform]
    change (((m.reset).perform later).map _).map _ = _
    rw [hkept.reset_eq, Option.map_map]
    rfl

/-- A run that is cut, a state that no rule is for, and a new start that comes to a halt. -/
theorem bookkeeping_countdown :
    let m := ofProgram countdown.program
    let lost := ((m.after 1).setState "T").step.2
    let ops : List Operation := [.runLimited 1, .setState "T", .step]
    ∃ l, m.perform ops = some (l, lost) ∧ lost.program.state = "T" ∧
      l.steps = [.applied, .failed (.missingRule "1" "T" 0)] ∧ lost.count = 1 ∧
      ∃ l', m.perform (ops ++ [.reset, .run, .step]) = some (l', m.after 3) ∧
        l'.sinceReset.steps = [.applied, .applied, .halted, .halted] ∧ (m.after 3).count = 2 := by
  intro m lost ops
  let l : Uses := [(.runLimited 1, .run (.cancelled 1) [(m.after 1).program]), (.setState "T", .done),
    (.step, .step (.failed (.missingRule "1" "T" 0)))]
  let more : Uses := [(.run, .run (.halted ["0"]) [(m.after 1).program, (m.after 2).program]),
    (.step, .step .halted)]
  have h : m.perform ops = some (l, lost) := by
    rw [perform, perform_runLimited]
    decide
  have hends : m.Ends 2 := by decide
  have hmore : m.perform [.run, .step] = some (more, m.after 3) := by
    rw [perform, perform_run hends]
    decide
  obtain ⟨_, hcount, _, hreset⟩ := bookkeeping h
  have hall := hreset [.run, .step]
  rw [hmore] at hall
  obtain ⟨_, hcount', _⟩ := bookkeeping hall
  refine ⟨l, h, by decide, rfl, hcount, _, hall, by decide, ?_⟩
  exact hcount'.trans (by decide)

end Machine

end TapeLang
