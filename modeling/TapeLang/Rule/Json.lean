import TapeLang.Json.Shape
import TapeLang.Rule.Basic

/-! Rules and their parts in JSON. -/

namespace TapeLang

namespace Pattern

def toJson : Pattern → Json
  | any => .ofString "Any"
  | literal s => .ofFields [("Literal", .ofString s)]

def ofJson? (v : Json) : Option Pattern := do
  match ← v.choice? with
  | ("Any", content) => if Json.isBare content then some any else none
  | ("Literal", some content) => content.text?.map literal
  | _ => none

end Pattern

namespace Key

def toJson (k : Key) : Json :=
  .ofFields [("symbol", k.symbol.toJson), ("state", k.state.toJson)]

def ofJson? (v : Json) : Option Key := do
  match ← v.record? ["symbol", "state"] with
  | [symbol, state] => return ⟨← Pattern.ofJson? symbol, ← Pattern.ofJson? state⟩
  | _ => none

end Key

namespace Write

def toJson : Write → Json
  | literal s => .ofFields [("Literal", .ofString s)]
  | increment => .ofString "Increment"
  | decrement => .ofString "Decrement"
  | keep => .ofString "Keep"

def ofJson? (v : Json) : Option Write := do
  match ← v.choice? with
  | ("Literal", some content) => content.text?.map literal
  | ("Increment", content) => if Json.isBare content then some increment else none
  | ("Decrement", content) => if Json.isBare content then some decrement else none
  | ("Keep", content) => if Json.isBare content then some keep else none
  | _ => none

end Write

namespace NextState

def toJson : NextState → Json
  | literal s => .ofFields [("Literal", .ofString s)]
  | keep => .ofString "Keep"

def ofJson? (v : Json) : Option NextState := do
  match ← v.choice? with
  | ("Literal", some content) => content.text?.map literal
  | ("Keep", content) => if Json.isBare content then some keep else none
  | _ => none

end NextState

namespace Direction

def toJson : Direction → Json
  | left => .ofString "Left"
  | right => .ofString "Right"
  | stay => .ofString "Stay"

def ofJson? (v : Json) : Option Direction := do
  match ← v.choice? with
  | ("Left", content) => if Json.isBare content then some left else none
  | ("Right", content) => if Json.isBare content then some right else none
  | ("Stay", content) => if Json.isBare content then some stay else none
  | _ => none

end Direction

namespace Transition

def toJson (t : Transition) : Json :=
  .ofFields [("write", t.write.toJson), ("next_state", t.next.toJson),
    ("direction", t.direction.toJson)]

def ofJson? (v : Json) : Option Transition := do
  match ← v.record? ["write", "next_state", "direction"] with
  | [write, next, direction] =>
    return ⟨← Write.ofJson? write, ← NextState.ofJson? next, ← Direction.ofJson? direction⟩
  | _ => none

end Transition

namespace Rule

def toJson : Rule → Json
  | halt => .ofString "Halt"
  | transition t => .ofFields [("Transition", t.toJson)]

def ofJson? (v : Json) : Option Rule := do
  match ← v.choice? with
  | ("Halt", content) => if Json.isBare content then some halt else none
  | ("Transition", some content) => (Transition.ofJson? content).map transition
  | _ => none

end Rule

end TapeLang
