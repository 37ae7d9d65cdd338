import TapeLang.Program
import TapeLang.Source.Line

/-! The canonical source of a program: its rules in key order, one a line, then its tape, then its state.
The state comes last, so that an empty one stands as a last empty line. A program has no source if
reading could not give it back; the first cause in the order of the lines is reported. -/

namespace TapeLang

inductive TokenRole
  | symbol
  | state
  deriving DecidableEq, Repr

inductive Inexpressible
  /-- The token holds a comma, an arrow or white space. -/
  | token (role : TokenRole) (text : String)
  /-- The literal would be read as a marker. -/
  | literal (text : String)
  /-- The transition would be read as a halt. -/
  | emptyTransition
  /-- The tape has one to three cells: too few for a tape line, too many for none. -/
  | shortTape (cells : Nat)
  deriving DecidableEq, Repr

namespace TokenRole

def name : TokenRole → String
  | symbol => "symbol"
  | state => "state"

end TokenRole

namespace Inexpressible

def message : Inexpressible → String
  | token role text => s!"The {role.name} '{text}' can't be written as TurTaL source"
  | literal text => s!"The literal '{text}' would be read back as an action"
  | emptyTransition => "An empty transition would be read back as a halt rule"
  | shortTape cells => s!"A tape of {cells} cells can't be written as a tape line"

end Inexpressible

namespace Source

/-- The token survives as a field, a cell or a state line. -/
def isToken (s : String) : Bool :=
  let cs := s.toList
  !cs.contains ',' && !hasArrow cs && !cs.any Text.isSpace

def checkToken (role : TokenRole) (s : String) : Except Inexpressible Unit :=
  if isToken s then .ok () else .error (.token role s)

def checkLiteral (markers : List String) (s : String) : Except Inexpressible Unit :=
  if s ∈ markers then .error (.literal s) else .ok ()

def checkPattern : Pattern → Except Inexpressible Unit
  | .any => .ok ()
  | .literal s => checkLiteral ["*"] s

def checkWrite : Write → Except Inexpressible Unit
  | .literal s => checkLiteral ["*", "+", "-"] s
  | _ => .ok ()

def checkNext : NextState → Except Inexpressible Unit
  | .literal s => checkLiteral ["*"] s
  | .keep => .ok ()

def checkKey (k : Key) : Except Inexpressible Unit := do
  checkToken .symbol k.symbol.text
  checkToken .state k.state.text
  checkPattern k.symbol
  checkPattern k.state

def checkEmpty (t : Transition) : Except Inexpressible Unit :=
  if t = ⟨.literal "", .literal "", .stay⟩ then .error .emptyTransition else .ok ()

def checkBody : Rule → Except Inexpressible Unit
  | .halt => .ok ()
  | .transition t => do
    checkWrite t.write
    checkNext t.next
    checkEmpty t
    checkToken .symbol t.write.text
    checkToken .state t.next.text

/-- The text of a direction at the end of its line, after a space if there is any. -/
def directionTail : Direction → String
  | .stay => ""
  | d => " " ++ d.text

def bodyText : Rule → String
  | .halt => ", ,"
  | .transition t => t.write.text ++ ", " ++ t.next.text ++ "," ++ directionTail t.direction

/-- The line of a rule: a space stands behind each separator that is not the last character, and
around the arrow. -/
def ruleLine (k : Key) (r : Rule) : String :=
  k.symbol.text ++ ", " ++ k.state.text ++ " => " ++ bodyText r

def ruleSource (rule : Key × Rule) : Except Inexpressible String := do
  checkKey rule.1
  checkBody rule.2
  return ruleLine rule.1 rule.2

/-- The tape line; an empty tape has none. -/
def tapeSource (tape : List Symbol) : Except Inexpressible (List String) :=
  if tape.length = 0 then .ok []
  else if tape.length ≤ 3 then .error (.shortTape tape.length)
  else do
    tape.forM (checkToken .symbol)
    return [",".intercalate tape]

end Source

namespace Program

def sourceLines (p : Program) : Except Inexpressible (List String) := do
  let rules ← p.rules.toList.mapM Source.ruleSource
  let tape ← Source.tapeSource p.tape
  Source.checkToken .state p.state
  return rules ++ tape ++ [p.state]

/-- The canonical source. The head position has no place in it. -/
def toSource (p : Program) : Except Inexpressible String :=
  return "\n".intercalate (← p.sourceLines)

theorem sourceLines_congr {p q : Program} (ht : p.tape = q.tape) (hs : p.state = q.state)
    (hr : p.rules = q.rules) : p.sourceLines = q.sourceLines := by
  simp [sourceLines, ht, hs, hr]

end Program

end TapeLang
