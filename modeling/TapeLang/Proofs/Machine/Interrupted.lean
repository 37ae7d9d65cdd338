import TapeLang.Machine.Loop
import TapeLang.Proofs.Machine.Applied

/-! Runs that are interrupted. A run whose flag goes up after a number of applied rules is the run with that
limit, `runLimited_eq`; if the row of applied steps ends before, it is the run without a flag,
`runToEnd_of_ends`. A machine made anew from a program goes on as the one that came to it, and counts
from zero, `run_onto`. -/

namespace TapeLang

namespace Outcome

def behind (steps : Nat) : Outcome → Outcome
  | halted tape => .halted tape
  | failed e => .failed e
  | cancelled n => .cancelled (steps + n)

theorem behind_eq_self {steps : Nat} {o : Outcome} (h : o.isCancelled = false) :
    o.behind steps = o := by
  cases o with
  | halted tape => rfl
  | failed e => rfl
  | cancelled n => cases h

end Outcome

namespace Step

theorem outcome_isCancelled_eq_false {s : Step} (h : s ≠ .applied) (m : Machine) :
    (s.outcome m).isCancelled = false := by
  cases s with
  | applied => exact absurd rfl h
  | halted => rfl
  | failed e => rfl

end Step

/-- The second machine, with the past of the first in front of its own. -/
def Machine.onto (past m : Machine) : Machine :=
  { m with initial := past.initial, count := past.count + m.count }

def Run.onto {σ : Type} (past : Machine) (r : Run σ) : Run σ :=
  ⟨r.observed, r.outcome.behind past.count, past.onto r.machine⟩

theorem Step.outcome_onto (s : Step) (past m : Machine) :
    s.outcome (past.onto m) = (s.outcome m).behind past.count := by
  cases s <;> rfl

namespace Machine

variable {σ : Type}

section Onto

/-! The past of a machine has no part in what it does. -/

theorem onto_rebuild (m : Machine) : m.onto m.rebuild = m := rfl

theorem step_onto (past m : Machine) : (past.onto m).step = (m.step.1, past.onto m.step.2) := by
  rw [step_eq, step_eq]
  change (past.onto m).stepOn m.program.extend m.program.scanned = _
  cases hr : m.program.extend.resolve m.program.scanned with
  | none => simp only [stepOn, hr]; rfl
  | some found =>
    obtain ⟨key, _ | t⟩ := found
    · simp only [stepOn, hr]
      rfl
    · cases hw : t.write.apply m.program.scanned key m.program.extend.index with
      | error e => simp only [stepOn, hr, hw]; rfl
      | ok written => simp only [stepOn, hr, hw]; rfl

theorem after_onto (past m : Machine) (n : Nat) : (past.onto m).after n = past.onto (m.after n) := by
  induction n with
  | zero => rfl
  | succ n ih => rw [after, ih, step_onto, after]

theorem applies_onto {past m : Machine} {n : Nat} : (past.onto m).Applies n ↔ m.Applies n := by
  simp only [Applies, after_onto, step_onto]

theorem ends_onto {past m : Machine} {j : Nat} : (past.onto m).Ends j ↔ m.Ends j := by
  simp only [Ends, applies_onto, after_onto, step_onto]

theorem runEnding_onto (observe : σ → Program → σ) (seen : σ) (past m : Machine) (j : Nat) :
    (past.onto m).runEnding observe seen j = (m.runEnding observe seen j).onto past := by
  have ht : (past.onto m).trail j = m.trail j := by
    simp only [trail, after_onto]
    rfl
  simp only [runEnding, ht, after_onto, step_onto, Step.outcome_onto, Run.onto]

theorem run_onto (observe : σ → Program → σ) (seen : σ) (past m : Machine) (n : Nat) :
    (past.onto m).run observe seen n = (m.run observe seen n).onto past := by
  induction n generalizing m seen with
  | zero => rfl
  | succ n ih =>
    have hs := step_onto past m
    by_cases ha : m.step.1 = .applied
    · have hp : (past.onto m).step.1 = .applied := by rw [hs]; exact ha
      rw [run_succ_of_applied observe seen hp, run_succ_of_applied observe seen ha, hs, ih]
      rfl
    · have hp : (past.onto m).step.1 ≠ .applied := by rw [hs]; exact ha
      rw [run_succ_of_ne_applied observe seen hp, run_succ_of_ne_applied observe seen ha, hs,
        Step.outcome_onto]
      rfl

end Onto

section Loop

variable {observe : σ → Program → σ} {seen : σ} {m : Machine} {n j : Nat}

theorem runToEnd_of_isCancelled_eq_false (h : (m.run observe seen n).outcome.isCancelled = false) :
    m.runToEnd observe seen = some (m.run observe seen n) := by
  induction n generalizing m seen with
  | zero => cases h
  | succ n ih =>
    rcases hs : m.step with ⟨_ | _ | e, next⟩
    · rw [run, hs] at h ⊢
      rw [runToEnd, hs]
      exact ih h
    · rw [run, runToEnd, hs]
    · rw [run, runToEnd, hs]

theorem runToEnd_of_ends (h : m.Ends j) :
    m.runToEnd observe seen = some (m.runEnding observe seen j) := by
  have hr := run_of_ends observe seen h (Nat.lt_succ_self j)
  rw [← hr]
  apply runToEnd_of_isCancelled_eq_false
  rw [hr]
  exact Step.outcome_isCancelled_eq_false h.2 _

/-- Only a row of applied steps that ends makes a run that comes to something. -/
theorem exists_ends_of_runToEnd {r : Run σ} (h : m.runToEnd observe seen = some r) :
    ∃ j, m.Ends j := by
  refine runToEnd.partial_correctness observe (fun _ m _ => ∃ j, m.Ends j) ?_ seen m r h
  intro go ih seen m r hr
  by_cases ha : m.step.1 = .applied
  · have hs : m.step = (.applied, m.step.2) := Prod.ext ha rfl
    rw [hs] at hr
    obtain ⟨j, hj⟩ := ih _ _ _ hr
    exact ⟨j + 1, ends_succ_iff.2 ⟨ha, hj⟩⟩
  · exact ⟨0, ends_zero_iff.2 ha⟩

theorem runToEnd_eq_none (h : ∀ n, m.Applies n) : m.runToEnd observe seen = none := by
  rw [Option.eq_none_iff_forall_ne_some]
  intro r hr
  obtain ⟨j, hj⟩ := exists_ends_of_runToEnd hr
  exact hj.2 (h (j + 1) j (Nat.lt_succ_self j))

/-- The flag is up when the count has come to the limit, and not before. -/
theorem runUntil_note (observe : σ → Program → σ) (seen : σ) (m : Machine) (applied limit : Nat) :
    (m.runUntil Tally.flag (Tally.note (applied + limit) observe)
        ⟨seen, applied, limit = 0⟩).map (fun r => (⟨r.observed.seen, r.outcome, r.machine⟩ : Run σ)) =
      some (m.run observe seen limit) := by
  induction limit generalizing m seen applied with
  | zero => rw [runUntil]; rfl
  | succ limit ih =>
    have hnote (p : Program) : Tally.note (applied + (limit + 1)) observe
        ⟨seen, applied, limit + 1 = 0⟩ p = ⟨observe seen p, applied + 1, limit = 0⟩ := by
      have hflag : applied + (limit + 1) ≤ applied + 1 ↔ limit = 0 := by omega
      simp [Tally.note, hflag]
    have hsum : applied + (limit + 1) = applied + 1 + limit := by omega
    rw [runUntil, if_neg (by simp), run]
    simp only [hnote]
    rcases m.step with ⟨_ | _ | e, next⟩
    · rw [hsum]
      exact ih ..
    · rfl
    · rfl

theorem runLimited_eq (observe : σ → Program → σ) (seen : σ) (m : Machine) (n : Nat) :
    m.runLimited observe seen n = some (m.run observe seen n) := by
  have h := runUntil_note observe seen m 0 n
  rwa [Nat.zero_add] at h

theorem program_run_of_ends (h : m.Ends j) :
    m.program.run observe seen =
      some ((m.runEnding observe seen j).observed, (m.runEnding observe seen j).outcome) := by
  have hr : m.rebuild.Ends j := ends_onto.1 (m.onto_rebuild.symm ▸ h)
  have hw : m.runEnding observe seen j = (m.rebuild.runEnding observe seen j).onto m :=
    runEnding_onto observe seen m m.rebuild j
  have ho : (m.rebuild.runEnding observe seen j).outcome.isCancelled = false :=
    Step.outcome_isCancelled_eq_false hr.2 _
  rw [Program.run, hw, Run.onto, Outcome.behind_eq_self ho]
  change (m.rebuild.runToEnd observe seen).map _ = _
  rw [runToEnd_of_ends hr]
  rfl

end Loop

/-- A limit that the row of applied steps reaches cuts the run there, whatever the next step would do; any
other limit leaves the run as it is without one, which comes to nothing if the row has no end. A run
that was cut goes on as if it had not been, also in a machine made anew from its program, which differs
in its past only: it counts from zero. -/
theorem interrupted_run (observe : σ → Program → σ) (seen : σ) (m : Machine) :
    (∀ n, m.Applies n ∨ ∃ j < n, m.Ends j) ∧
      (∀ n, m.Applies n →
        m.runLimited observe seen n =
          some ⟨(m.trail n).foldl observe seen, .cancelled (m.count + n), m.after n⟩) ∧
      (∀ n j, m.Ends j → j < n →
        let whole := m.runEnding observe seen j
        m.runLimited observe seen n = some whole ∧ m.runToEnd observe seen = some whole ∧
          m.runAlone = some ⟨(), whole.outcome, whole.machine⟩ ∧
          m.program.run observe seen = some (whole.observed, whole.outcome)) ∧
      ((∀ n, m.Applies n) →
        m.runToEnd observe seen = none ∧ m.runAlone = none ∧ m.program.run observe seen = none) ∧
      ∀ n k cut, m.runLimited observe seen n = some cut → cut.outcome.isCancelled = true →
        cut.machine.runLimited observe cut.observed k = m.runLimited observe seen (n + k) ∧
          (cut.machine.rebuild.runLimited observe cut.observed k).map (Run.onto cut.machine) =
            m.runLimited observe seen (n + k) := by
  refine ⟨m.applies_or_ends, ?_, ?_, ?_, ?_⟩
  · intro n h
    rw [runLimited_eq, run_of_applies observe seen h]
  · intro n j h hj
    refine ⟨?_, runToEnd_of_ends h, ?_, program_run_of_ends h⟩
    · rw [runLimited_eq, run_of_ends observe seen h hj]
    · rw [runAlone, runToEnd_of_ends h]
      rfl
  · intro h
    have hp : m.rebuild.runToEnd observe seen = none :=
      runToEnd_eq_none fun n => applies_onto.1 (m.onto_rebuild.symm ▸ h n)
    refine ⟨runToEnd_eq_none h, runToEnd_eq_none h, ?_⟩
    rw [Program.run]
    change (m.rebuild.runToEnd observe seen).map _ = none
    rw [hp]
    rfl
  · intro n k cut hcut hc
    rw [runLimited_eq] at hcut
    obtain rfl := Option.some.inj hcut
    have hgo := run_add_of_isCancelled k hc
    simp only [runLimited_eq, Option.map_some]
    refine ⟨by rw [hgo], ?_⟩
    rw [hgo, ← run_onto, onto_rebuild]

/-- A machine that has applied three rules and counts down to a halt. -/
def countdown : Machine where
  program :=
    { tape := ["2"]
      state := "S"
      rules := RuleTable.ofRules
        [(⟨.any, .literal "S"⟩, .transition ⟨.decrement, .keep, .stay⟩),
          (⟨.literal "0", .literal "S"⟩, .halt)] }
  initial := {}
  count := 3

def idle : Machine :=
  ofProgram
    { tape := ["."]
      rules := RuleTable.ofRules [(⟨.any, .any⟩, .transition ⟨.keep, .keep, .stay⟩)] }

theorem idle_applies (n : Nat) : idle.Applies n := by
  have hs : idle.step.1 = .applied := by decide +kernel
  have hp : idle.step.2.program = idle.program := by decide +kernel
  have stays (k : Nat) : (idle.after k).rebuild = idle := by
    induction k with
    | zero => rfl
    | succ k ih =>
      rw [after, ← onto_rebuild (idle.after k), ih, step_onto]
      change ofProgram idle.step.2.program = idle
      rw [hp]
      rfl
  intro k _
  rw [← onto_rebuild (idle.after k), stays, step_onto]
  exact hs

theorem interrupted_run_countdown :
    let tapes := fun (seen : List (List Symbol)) (p : Program) => seen ++ [p.tape]
    countdown.Applies 2 ∧ countdown.Ends 2 ∧
      countdown.runLimited tapes [] 2 = some ⟨[["1"], ["0"]], .cancelled 5, countdown.after 2⟩ ∧
      countdown.runLimited tapes [] 3 = some ⟨[["1"], ["0"]], .halted ["0"], countdown.after 3⟩ ∧
      countdown.runToEnd tapes [] = some ⟨[["1"], ["0"]], .halted ["0"], countdown.after 3⟩ ∧
      ((countdown.after 2).rebuild.runLimited tapes [["1"], ["0"]] 1).map
          (Run.onto (countdown.after 2)) = countdown.runLimited tapes [] 3 ∧
      (∀ n, idle.Applies n) ∧ idle.runToEnd tapes [] = none := by
  intro tapes
  have ha : countdown.Applies 2 := by decide +kernel
  have he : countdown.Ends 2 := by decide +kernel
  have ht : (countdown.trail 2).foldl tapes [] = [["1"], ["0"]] := by decide +kernel
  have ho : (countdown.after 2).step.1.outcome (countdown.after 3) = .halted ["0"] := by
    decide +kernel
  obtain ⟨_, hcut, hwhole, _, hgo⟩ := interrupted_run tapes [] countdown
  obtain ⟨_, _, _, hnone, _⟩ := interrupted_run tapes [] idle
  have h2 := hcut 2 ha
  obtain ⟨h3, hend, _, _⟩ := hwhole 3 2 he (by decide)
  rw [ht] at h2
  rw [runEnding, ht, ho] at h3 hend
  exact ⟨ha, he, h2, h3, hend, (hgo 2 1 _ h2 rfl).2, idle_applies, (hnone idle_applies).1⟩

end Machine

end TapeLang
