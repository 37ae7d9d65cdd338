import TapeLang.Machine.Run

/-! Runs without a limit of their own. They go on until a step applies no rule, or until a flag is found up,
which is looked at before each step and which the observer may raise. A run that never ends has no
result. -/

namespace TapeLang

/-- What an observer has made of a run while it counts the applied rules to raise a flag. -/
structure Tally (σ : Type) where
  seen : σ
  applied : Nat := 0
  flag : Bool

namespace Tally

variable {σ : Type}

def note (n : Nat) (observe : σ → Program → σ) (t : Tally σ) (p : Program) : Tally σ where
  seen := observe t.seen p
  applied := t.applied + 1
  flag := t.flag || decide (n ≤ t.applied + 1)

end Tally

namespace Machine

variable {σ : Type}

def runToEnd (observe : σ → Program → σ) (seen : σ) (m : Machine) : Option (Run σ) :=
  match m.step with
  | (.applied, next) => next |>.runToEnd observe (observe seen next.program)
  | (.halted, last) => some ⟨seen, .halted last.program.tape, last⟩
  | (.failed e, last) => some ⟨seen, .failed e, last⟩
partial_fixpoint

/-- Steps until one applies no rule or the flag is found up. -/
def runUntil (flag : σ → Bool) (observe : σ → Program → σ) (seen : σ) (m : Machine) :
    Option (Run σ) :=
  if flag seen then some ⟨seen, .cancelled m.count, m⟩
  else
    match m.step with
    | (.applied, next) => next |>.runUntil flag observe (observe seen next.program)
    | (.halted, last) => some ⟨seen, .halted last.program.tape, last⟩
    | (.failed e, last) => some ⟨seen, .failed e, last⟩
partial_fixpoint

def runAlone (m : Machine) : Option (Run Unit) :=
  m.runToEnd (fun _ _ => ()) ()

/-- The run whose flag goes up once `n` rules are applied; for none, it is up from the start. -/
def runLimited (observe : σ → Program → σ) (seen : σ) (m : Machine) (n : Nat) : Option (Run σ) :=
  (m.runUntil Tally.flag (Tally.note n observe) { seen, flag := n = 0 }).map fun r =>
    ⟨r.observed.seen, r.outcome, r.machine⟩

end Machine

namespace Program

def run {σ : Type} (observe : σ → Program → σ) (seen : σ) (p : Program) : Option (σ × Outcome) :=
  ((Machine.ofProgram p).runToEnd observe seen).map fun r => (r.observed, r.outcome)

end Program

end TapeLang
