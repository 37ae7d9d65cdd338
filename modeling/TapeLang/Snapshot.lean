import TapeLang.Json.Shape
import TapeLang.Json.Write
import TapeLang.Program

/-! Snapshots of a running program: everything but its rules, and the number of steps made so far. -/

namespace TapeLang

structure Snapshot where
  step : Nat
  state : State
  head : Int
  tape : List Symbol
  deriving DecidableEq, Repr, Inhabited

namespace Snapshot

def ofProgram (step : Nat) (p : Program) : Snapshot :=
  ⟨step, p.state, p.head, p.tape⟩

def toJson (s : Snapshot) : Json :=
  .ofFields [("step", .ofNat s.step), ("state", .ofString s.state), ("head", .ofInt s.head),
    ("tape", .ofStrings s.tape)]

def ofJson? (v : Json) : Option Snapshot := do
  match ← v.record? ["step", "state", "head", "tape"] with
  | [step, state, head, tape] =>
    return ⟨← step.unsigned?, ← state.text?, ← head.signed?, ← tape.texts?⟩
  | _ => none

def json (s : Snapshot) : String :=
  s.toJson.write

def text (s : Snapshot) : String :=
  s!"Step: {s.step}, State: {s.state}, Head: {s.head}, Tape: [" ++ ",".intercalate s.tape ++ "]"

end Snapshot

end TapeLang
