import TapeLang.Analysis.Warning
import TapeLang.Catalogue
import TapeLang.Machine.Step
import TapeLang.Text.Terminal

/-! What is told along the way, by level: warnings always, the rest on demand. Each notice is one line of a
level, a message and named values. The message is made safe for a terminal, the values stand as they
are. -/

namespace TapeLang

inductive Level
  | warn
  | debug
  | trace
  deriving DecidableEq, Repr

inductive Notice
  | overwritten (line : Nat) (key : Key) (previous : Rule)
  | tapeLine (line cells : Nat)
  | stateLine (line : Nat) (state : State)
  | loading (path : String) (bytes : Nat)
  | warning (w : Warning)
  | halted (steps index : Nat)
  | noRule (steps : Nat) (e : RunError)
  | applying (step : Nat) (state : State) (index : Nat) (symbol : Symbol) (rule : Key)
  | writeFailed (steps : Nat) (e : RunError)
  | cancelled (steps : Nat)
  deriving DecidableEq, Repr

namespace Level

/-- The name, right-aligned. -/
def label : Level → String
  | warn => " WARN"
  | debug => "DEBUG"
  | trace => "TRACE"

def rank : Level → Nat
  | warn => 0
  | debug => 1
  | trace => 2

end Level

namespace Notice

def level : Notice → Level
  | warning .. => .warn
  | applying .. => .trace
  | _ => .debug

def message : Notice → String
  | overwritten .. => "rule overwritten"
  | tapeLine .. => "tape line"
  | stateLine .. => "state line"
  | loading .. => "loading program"
  | warning w => w.text
  | halted .. => "halted"
  | noRule .. => "no rule"
  | applying .. => "applying rule"
  | writeFailed .. => "write failed"
  | cancelled .. => "cancelled"

def values : Notice → List (String × String)
  | overwritten line key previous =>
    [("line", toString line), ("key", key.text), ("previous", previous.text)]
  | tapeLine line cells => [("line", toString line), ("cells", toString cells)]
  | stateLine line state => [("line", toString line), ("state", state)]
  | loading path bytes => [("path", path), ("bytes", toString bytes)]
  | warning _ => []
  | halted steps index => [("steps", toString steps), ("index", toString index)]
  | noRule steps e => [("steps", toString steps), ("error", e.message)]
  | applying step state index symbol rule =>
    [("step", toString step), ("state", state), ("index", toString index), ("symbol", symbol),
      ("rule", rule.text)]
  | writeFailed steps e => [("steps", toString steps), ("error", e.message)]
  | cancelled steps => [("steps", toString steps)]

def line (n : Notice) : String :=
  n.level.label ++ " " ++ Text.forTerminal n.message ++
    String.join (n.values.map fun v => " " ++ v.1 ++ "=" ++ v.2)

def shown (verbosity : Nat) (n : Notice) : Bool :=
  n.level.rank ≤ verbosity

end Notice

namespace Program

def lineNotices (p : Program) (number : Nat) : Source.Line → List Notice
  | .rule key _ =>
    match p.rules[key]? with
    | some previous => [.overwritten number key previous]
    | none => []
  | .tape cells => [.tapeLine number cells.length]
  | .state name => [.stateLine number name]

def linesNotices (p : Program) (number : Nat) : List (List Char) → List Notice
  | [] => []
  | raw :: rest =>
    match Source.Line.read raw with
    | .error _ => []
    | .ok line => p.lineNotices number line ++ (p.addLine line).linesNotices (number + 1) rest

def fileNotices (content : String) : List Notice :=
  ({} : Program).linesNotices 1 (Source.lines (Source.withoutFinalNewline content))

end Program

namespace Bundled

/-- What is told when the bundled programs are read, which is all at once. -/
def notices : List Notice :=
  all.flatMap fun b => Program.fileNotices b.text

end Bundled

namespace Machine

def stepNotices (m : Machine) : List Notice :=
  let p := m.program.extend
  let symbol := m.program.scanned
  let applying := fun key => Notice.applying m.count p.state p.index symbol key
  match m.step.1, p.resolve symbol with
  | .halted, _ => [.halted m.count p.index]
  | .failed e, none => [.noRule m.count e]
  | .failed e, some (key, _) => [applying key, .writeFailed m.count e]
  | .applied, some (key, _) => [applying key]
  | .applied, none => []

end Machine

end TapeLang
