import TapeLang.Machine.Step

/-! Runs: steps until one does not apply a rule, or until a limit is spent. The limit is looked at before
each step, so a machine that would halt next is still cancelled. An observer is shown the program
after each applied rule. Main statement: a cancelled run goes on where it was cut,
`run_add_of_isCancelled`. -/

namespace TapeLang

inductive Outcome
  | halted (tape : List Symbol)
  | failed (e : RunError)
  | cancelled (steps : Nat)
  deriving DecidableEq, Repr, Inhabited

namespace Outcome

def isCancelled : Outcome → Bool
  | cancelled _ => true
  | _ => false

end Outcome

structure Run (σ : Type) where
  /-- What the observer has made of the programs shown to it. -/
  observed : σ
  outcome : Outcome
  /-- The machine at the end. -/
  machine : Machine

namespace Machine

variable {σ : Type}

def run (observe : σ → Program → σ) (seen : σ) (m : Machine) : Nat → Run σ
  | 0 => ⟨seen, .cancelled m.count, m⟩
  | limit + 1 =>
    match m.step with
    | (.applied, next) => next.run observe (observe seen next.program) limit
    | (.halted, last) => ⟨seen, .halted last.program.tape, last⟩
    | (.failed e, last) => ⟨seen, .failed e, last⟩

/-- Up to `n` steps; the last one made, or an applied one if there is none. -/
def steps (m : Machine) : Nat → Step × Machine
  | 0 => (.applied, m)
  | n + 1 =>
    match m.step with
    | (.applied, next) => next.steps n
    | ended => ended

/-- The machine after `n` steps, whatever came of each. -/
def after (m : Machine) : Nat → Machine
  | 0 => m
  | n + 1 => (m.after n).step.2

theorem run_add_of_isCancelled {observe : σ → Program → σ} {seen : σ} {m : Machine} {a : Nat}
    (b : Nat) (h : (m.run observe seen a).outcome.isCancelled = true) :
    m.run observe seen (a + b) =
      (m.run observe seen a).machine.run observe (m.run observe seen a).observed b := by
  induction a generalizing m seen with
  | zero => rw [Nat.zero_add, run]
  | succ a ih =>
    rw [Nat.add_right_comm]
    rw [run] at h ⊢
    rw [run]
    split at h
    · next next _ => exact ih h
    · cases h
    · cases h

end Machine

end TapeLang
