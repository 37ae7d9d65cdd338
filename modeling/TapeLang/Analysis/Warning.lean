import Std.Data.ExtTreeSet
import TapeLang.Text.Quoted
import TapeLang.Analysis.Reachable

/-! Likely mistakes in a program. They are found without running it and never stop a run. A warning
names its states in strictly ascending order, `pairwise_ascending`, and there is one for each cause that
a program has, `mem_warnings`. -/

namespace TapeLang

inductive Warning
  | emptyInitialState
  | noHaltRule
  | unhandledInitialState (state : State)
  | undefinedNextStates (states : List State)
  | unreachableStates (states : List State)
  deriving DecidableEq, Repr

namespace Warning

def text : Warning → String
  | emptyInitialState => "Initial state is empty (is there a trailing blank line?)"
  | noHaltRule => "Program has no halt rule"
  | unhandledInitialState state => s!"No rule handles the initial state '{state}'"
  | undefinedNextStates states =>
    "Rules move into states without rules: " ++ Text.quotedList states
  | unreachableStates states => "Unreachable states detected: " ++ Text.quotedList states

end Warning

/-- The states in order, each once. -/
def ascending (states : List State) : List State :=
  (Std.ExtTreeSet.ofList states).toList

theorem mem_ascending {states : List State} {s : State} : s ∈ ascending states ↔ s ∈ states := by
  simp [ascending]

theorem ascending_congr {a b : List State} (h : ∀ s, s ∈ a ↔ s ∈ b) : ascending a = ascending b := by
  have hset : Std.ExtTreeSet.ofList a = Std.ExtTreeSet.ofList b :=
    Std.ExtTreeSet.ext_mem fun s => by simp [h]
  rw [ascending, ascending, hset]

theorem pairwise_ascending (states : List State) :
    (ascending states).Pairwise fun a b => compare a b = .lt :=
  Std.ExtTreeSet.ordered_toList

namespace Program

/-- The states that rules move into and no rule is for. -/
def undefinedStates (p : Program) : List State :=
  ascending (p.namedStates.filter fun s => !p.handles s)

/-- The states that rules are for by name and that cannot be entered. -/
def unreachable (p : Program) : List State :=
  let reached := p.reachable
  ascending (p.keyedStates.filter fun s => !reached.contains s)

def warningOf (warning : List State → Warning) : List State → List Warning
  | [] => []
  | states => [warning states]

def warnings (p : Program) : List Warning :=
  (if p.state = "" then [.emptyInitialState] else []) ++
  (if p.hasHaltRule then [] else [.noHaltRule]) ++
  (if p.handles p.state then [] else [.unhandledInitialState p.state]) ++
  warningOf .undefinedNextStates p.undefinedStates ++
  warningOf .unreachableStates p.unreachable

variable {p : Program} {s : State} {states : List State}

theorem mem_undefinedStates :
    s ∈ p.undefinedStates ↔ s ∈ p.namedStates ∧ p.handles s = false := by
  simp [undefinedStates, mem_ascending]

theorem mem_unreachable : s ∈ p.unreachable ↔ s ∈ p.keyedStates ∧ s ∉ p.reachable := by
  simp [unreachable, mem_ascending]

theorem mem_warningOf {warning : List State → Warning} {w : Warning} :
    w ∈ warningOf warning states ↔ states ≠ [] ∧ w = warning states := by
  cases states <;> simp [warningOf]

theorem mem_warnings {w : Warning} :
    w ∈ p.warnings ↔
      (p.state = "" ∧ w = .emptyInitialState) ∨
      (p.hasHaltRule = false ∧ w = .noHaltRule) ∨
      (p.handles p.state = false ∧ w = .unhandledInitialState p.state) ∨
      (p.undefinedStates ≠ [] ∧ w = .undefinedNextStates p.undefinedStates) ∨
      (p.unreachable ≠ [] ∧ w = .unreachableStates p.unreachable) := by
  simp only [warnings, List.mem_append, mem_warningOf, List.mem_ite_nil_left, List.mem_ite_nil_right,
    List.mem_singleton, Bool.not_eq_true, or_assoc]

theorem noHaltRule_mem_warnings : .noHaltRule ∈ p.warnings ↔ p.hasHaltRule = false := by
  simp [mem_warnings]

theorem unhandledInitialState_mem_warnings :
    .unhandledInitialState s ∈ p.warnings ↔ s = p.state ∧ p.handles p.state = false := by
  simp [mem_warnings, and_comm]

theorem undefinedNextStates_mem_warnings :
    .undefinedNextStates states ∈ p.warnings ↔
      p.undefinedStates ≠ [] ∧ states = p.undefinedStates := by
  simp [mem_warnings]

theorem unreachableStates_mem_warnings :
    .unreachableStates states ∈ p.warnings ↔ p.unreachable ≠ [] ∧ states = p.unreachable := by
  simp [mem_warnings]

end Program

end TapeLang
