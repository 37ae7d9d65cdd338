import TapeLang.Command.Arguments
import TapeLang.Log
import TapeLang.Snapshot
import TapeLang.Files.Load

/-! Carrying out a command. A command either ends at once or opens a session, which goes on turn by turn:
a turn is one step of the machine and what is printed of it. Exit codes: 0 for success, 1 for a
failure or a finding, 2 for a program that is no source text, 3 for a run that its limit ended. -/

namespace TapeLang

structure Output where
  out : List String := []
  err : List String := []
  deriving DecidableEq, Repr

namespace Output

def append (a b : Output) : Output :=
  ⟨a.out ++ b.out, a.err ++ b.err⟩

instance : Append Output := ⟨append⟩

def joined (lines : List String) : String :=
  String.join (lines.map fun line => line ++ "\n")

def ofNotices (verbosity : Nat) (notices : List Notice) : Output :=
  { err := (notices.filter (Notice.shown verbosity)).map Notice.line }

@[simp] theorem out_append (a b : Output) : (a ++ b).out = a.out ++ b.out := rfl

end Output

/-- What a command finds outside of itself. -/
structure Surroundings where
  fileContent : String → Except ReadFailure ByteArray
  /-- The standard input, if it is not a terminal. -/
  input : Option ByteArray

structure Session where
  machine : Machine
  trace : Bool
  format : Format
  limit : Option Nat
  verbosity : Nat
  /-- How many applied rules the session has seen. -/
  steps : Nat := 0
  /-- The flag that ends the session, looked at before each step. -/
  flag : Bool := false

inductive Turn
  | more (o : Output) (s : Session)
  | done (o : Output) (code : Nat)

namespace Error

def exitCode (e : Error) : Nat :=
  if e.isSyntax then 2 else 1

def turn (e : Error) : Turn :=
  .done { err := ["Error: " ++ e.message] } e.exitCode

end Error

namespace Turn

def after (o : Output) : Turn → Turn
  | more p s => more (o ++ p) s
  | done p code => done (o ++ p) code

end Turn

namespace Session

def snapshotLine (format : Format) (s : Snapshot) : String :=
  match format with
  | .text => s.text
  | .json => s.json

def resultLine (format : Format) (m : Machine) : String :=
  match format with
  | .text => ",".intercalate m.program.tape
  | .json => (Snapshot.ofProgram m.count m.program).json

def traceOutput (s : Session) : Output :=
  { out := if s.trace then [snapshotLine s.format (.ofProgram s.steps s.machine.program)] else [] }

/-- The session behind an applied rule. The limit is looked at here only, so that one rule is applied at
least. -/
def note (s : Session) (m : Machine) : Session :=
  { s with
    machine := m
    steps := s.steps + 1
    flag := s.flag || s.limit.any fun n => decide (n ≤ s.steps + 1) }

def stopped (s : Session) : Turn :=
  let n := s.machine.count
  .done (Output.ofNotices s.verbosity [.cancelled n] ++
    { out := [resultLine s.format s.machine], err := [s!"Stopped after {n} steps"] }) 3

def turn (s : Session) : Turn :=
  if s.flag then s.stopped
  else
    let told := Output.ofNotices s.verbosity s.machine.stepNotices
    match s.machine.step with
    | (.applied, m) =>
      let next := s.note m
      .more (told ++ next.traceOutput) next
    | (.halted, m) => .done (told ++ { out := [resultLine s.format m] }) 0
    | (.failed e, _) => (Error.run e).turn.after told

/-- The whole output and the exit code, if the session ends within the given number of turns. -/
def play? (s : Session) : Nat → Option (Output × Nat)
  | 0 => none
  | turns + 1 =>
    match s.turn with
    | .done o code => some (o, code)
    | .more o next => (next.play? turns).map fun r => (o ++ r.1, r.2)

end Session

namespace Origin

def load (origin : Origin) (w : Surroundings) : List Notice × Except Error Program :=
  match origin with
  | .bundled name => (Bundled.notices, loadBundled name)
  | .file path =>
    match fileText path (w.fileContent path) with
    | .error e => ([], .error e)
    | .ok text =>
      (.loading path text.utf8ByteSize :: Program.fileNotices text, loadText text)
  | .input =>
    match w.input with
    | none => ([], .error .noInput)
    | some bytes =>
      match inputText bytes with
      | .error e => ([], .error e)
      | .ok text => (Program.fileNotices text, loadText text)

end Origin

namespace RunOptions

/-- The machine for a program, with the tape and the state that are given instead of its own. -/
def machine (o : RunOptions) (p : Program) : Machine :=
  let m := Machine.ofProgram p
  let m := match o.tape with
    | some cells => m.setTape cells
    | none => m
  match o.state with
  | some state => m.setState state
  | none => m

def session (o : RunOptions) (verbosity : Nat) (p : Program) : Session where
  machine := o.machine p
  trace := o.trace
  format := o.format
  limit := o.limit
  verbosity := verbosity

end RunOptions

namespace Command

def padded (width : Nat) (s : String) : String :=
  s ++ String.ofList (List.replicate (width - s.length) ' ')

def startRun (o : RunOptions) (verbosity : Nat) (p : Program) : Turn :=
  let s := o.session verbosity p
  .more (Output.ofNotices verbosity (p.warnings.map .warning) ++ s.traceOutput) s

def checkTurn (p : Program) : Turn :=
  if p.warnings = [] then .done { out := ["No problems found"] } 0
  else .done { out := p.warnings.map fun w => "warning: " ++ w.text } 1

def fmtTurn (p : Program) : Turn :=
  match p.toSource with
  | .ok text => .done { out := [text] } 0
  | .error e => (Error.inexpressible e).turn

def listLine (name : String) (p : Program) : String :=
  padded 12 name ++ " state: " ++ padded 8 p.state ++ " tape: " ++ ",".intercalate p.tape

def listLines : List String :=
  Bundled.all.filterMap fun b =>
    match b.program? with
    | .ok p => some (listLine b.name p)
    | .error _ => none

def withProgram (origin : Origin) (verbosity : Nat) (w : Surroundings) (go : Program → Turn) : Turn :=
  let (notices, loaded) := origin.load w
  Turn.after (Output.ofNotices verbosity notices) <|
    match loaded with
    | .error e => e.turn
    | .ok p => go p

end Command

def Invocation.start (i : Invocation) (w : Surroundings) : Turn :=
  match i.command with
  | .run o => Command.withProgram o.origin i.verbosity w (Command.startRun o i.verbosity)
  | .check origin => Command.withProgram origin i.verbosity w Command.checkTurn
  | .fmt origin => Command.withProgram origin i.verbosity w Command.fmtTurn
  | .list => .done (Output.ofNotices i.verbosity Bundled.notices ++ { out := Command.listLines }) 0

/-- The whole output and the exit code of a command, if its session ends within the given number of
turns. -/
def Invocation.play? (i : Invocation) (w : Surroundings) (turns : Nat) : Option (Output × Nat) :=
  match i.start w with
  | .done o code => some (o, code)
  | .more o s => (s.play? turns).map fun r => (o ++ r.1, r.2)

end TapeLang
