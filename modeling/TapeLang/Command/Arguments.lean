import TapeLang.Decimal
import TapeLang.Rule.Basic

/-! Command lines. Options have a long name, most of them a letter as well, and some a value, which follows
its option as the next argument or is attached to it. An argument that starts with a minus sign and
goes on is an option, so such a value has to be attached; behind two minus signs alone there are
operands only. Arguments are judged one by one as they are read, so that a request for help counts
unless something in front of it is at fault; what excludes each other is looked at in the end. -/

namespace TapeLang

inductive Format
  | text
  | json
  deriving DecidableEq, Repr

inductive Origin
  | bundled (name : String)
  | file (path : String)
  | input
  deriving DecidableEq, Repr

structure RunOptions where
  origin : Origin
  tape : Option (List Symbol)
  state : Option State
  trace : Bool
  format : Format
  limit : Option Nat
  deriving DecidableEq, Repr

inductive Command
  | run (options : RunOptions)
  | check (origin : Origin)
  | fmt (origin : Origin)
  | list
  deriving DecidableEq, Repr

structure Invocation where
  verbosity : Nat
  command : Command
  deriving DecidableEq, Repr

inductive Refusal
  | usage
  | help
  | version
  deriving DecidableEq, Repr

namespace Command

inductive Flag
  | verbose
  | help
  | version
  | trace
  | bundled
  | tape
  | state
  | format
  | maxSteps
  deriving DecidableEq, Repr

namespace Flag

def long : Flag → String
  | verbose => "verbose"
  | help => "help"
  | version => "version"
  | trace => "trace"
  | bundled => "example"
  | tape => "tape"
  | state => "state"
  | format => "format"
  | maxSteps => "max-steps"

def letter? : Flag → Option Char
  | verbose => some 'v'
  | help => some 'h'
  | version => some 'V'
  | trace => some 'd'
  | bundled => some 'e'
  | tape => some 't'
  | state => some 's'
  | format => none
  | maxSteps => none

def takesValue : Flag → Bool
  | verbose => false
  | help => false
  | version => false
  | trace => false
  | _ => true

end Flag

/-- What may be given at a place of the command line. -/
structure Grammar where
  flags : List Flag
  /-- There may be a file as well. -/
  file : Bool

namespace Grammar

def general : Grammar :=
  ⟨[.verbose, .help, .version], false⟩

def ofProgram : Grammar :=
  ⟨[.verbose, .help, .bundled], true⟩

def ofRun : Grammar :=
  ⟨ofProgram.flags ++ [.tape, .state, .trace, .format, .maxSteps], true⟩

def ofList : Grammar :=
  ⟨[.verbose, .help], false⟩

end Grammar

inductive Item
  | flag (f : Flag)
  | value (f : Flag) (text : String)
  | file (path : String)
  /-- Something that may not be given here. -/
  | fault
  deriving DecidableEq, Repr

/-- The items in one argument, and an option at its end that waits for a value. -/
structure Reading where
  items : List Item
  pending : Option Flag

def isOption (arg : String) : Bool :=
  match arg.toList with
  | '-' :: _ :: _ => true
  | _ => false

namespace Grammar

/-- Reads the letters behind a minus sign. The first option with a value takes the rest as its value,
less an equals sign in front. -/
def readLetters (g : Grammar) : List Char → Reading
  | [] => ⟨[], none⟩
  | c :: cs =>
    match g.flags.find? fun f => f.letter? == some c with
    | none => ⟨[.fault], none⟩
    | some f =>
      if f.takesValue then
        match cs with
        | [] => ⟨[], some f⟩
        | '=' :: text => ⟨[.value f (String.ofList text)], none⟩
        | text => ⟨[.value f (String.ofList text)], none⟩
      else
        let rest := g.readLetters cs
        { rest with items := .flag f :: rest.items }

def readLong (g : Grammar) (cs : List Char) : Reading :=
  let name := String.ofList (cs.takeWhile fun c => c != '=')
  match g.flags.find? fun f => f.long == name, cs.dropWhile fun c => c != '=' with
  | none, _ => ⟨[.fault], none⟩
  | some f, [] => if f.takesValue then ⟨[], some f⟩ else ⟨[.flag f], none⟩
  | some f, _ :: text =>
    if f.takesValue then ⟨[.value f (String.ofList text)], none⟩ else ⟨[.fault], none⟩

def readOption (g : Grammar) (arg : String) : Reading :=
  match arg.toList with
  | '-' :: '-' :: cs => g.readLong cs
  | '-' :: cs => g.readLetters cs
  | _ => ⟨[.fault], none⟩

/-- Reads an argument that is no option. A file has a name. -/
def readOperand (g : Grammar) (arg : String) : Item :=
  if g.file ∧ arg ≠ "" then .file arg else .fault

def readItems (g : Grammar) : List String → List Item
  | [] => []
  | arg :: rest =>
    if arg = "--" then rest.map g.readOperand
    else if isOption arg then
      let reading := g.readOption arg
      match reading.pending, rest with
      | none, rest => reading.items ++ g.readItems rest
      | some _, [] => reading.items ++ [.fault]
      | some f, text :: rest =>
        if isOption text then reading.items ++ [.fault]
        else reading.items ++ .value f text :: g.readItems rest
    else g.readOperand arg :: g.readItems rest

end Grammar

/-- What the items up to one of them have given. -/
structure Given where
  verbosity : Nat := 0
  bundled : Option String := none
  file : Option String := none
  tape : Option (List Symbol) := none
  state : Option State := none
  trace : Option Unit := none
  format : Option Format := none
  limit : Option Nat := none
  deriving DecidableEq, Repr

/-- Gives a value, if there is one, to what has none yet. -/
def once {α : Type} (old value : Option α) : Except Refusal (Option α) :=
  match old, value with
  | none, some a => .ok (some a)
  | _, _ => .error .usage

def readCells (text : String) : List Symbol :=
  (text.toList.splitOn ',').map String.ofList

def readFormat? : String → Option Format
  | "text" => some .text
  | "json" => some .json
  | _ => none

namespace Given

/-- The verbosity adds up and so do the cells of the tape; anything else is given once. -/
def add (g : Given) : Item → Except Refusal Given
  | .flag .help => .error .help
  | .flag .version => .error .version
  | .flag .verbose => return { g with verbosity := g.verbosity + 1 }
  | .flag .trace => return { g with trace := ← once g.trace (some ()) }
  | .value .bundled name => return { g with bundled := ← once g.bundled (some name) }
  | .value .tape text => return { g with tape := some (g.tape.getD [] ++ readCells text) }
  | .value .state state => return { g with state := ← once g.state (some state) }
  | .value .format text => return { g with format := ← once g.format (readFormat? text) }
  | .value .maxSteps text => return { g with limit := ← once g.limit (Decimal.readUnsigned? text) }
  | .file path => return { g with file := ← once g.file (some path) }
  | _ => .error .usage

/-- The first item at fault and the first request for help or the version end the reading. -/
def addItems (g : Given) (items : List Item) : Except Refusal Given :=
  items.foldlM add g

/-- A bundled program and a file exclude each other. -/
def origin (g : Given) : Except Refusal Origin :=
  match g.bundled, g.file with
  | none, none => .ok .input
  | some name, none => .ok (.bundled name)
  | none, some path => .ok (.file path)
  | some _, some _ => .error .usage

def runOptions (g : Given) : Except Refusal RunOptions := do
  return {
    origin := ← g.origin
    tape := g.tape
    state := g.state
    trace := g.trace.isSome
    format := g.format.getD .text
    limit := g.limit }

end Given

inductive Verb
  | run
  | check
  | fmt
  | list
  deriving DecidableEq, Repr

namespace Verb

def read? : String → Option Verb
  | "run" => some run
  | "check" => some check
  | "fmt" => some fmt
  | "list" => some list
  | _ => none

def grammar : Verb → Grammar
  | run => .ofRun
  | check => .ofProgram
  | fmt => .ofProgram
  | list => .ofList

def command (g : Given) : Verb → Except Refusal Command
  | run => return .run (← g.runOptions)
  | check => return .check (← g.origin)
  | fmt => return .fmt (← g.origin)
  | list => return .list

end Verb

/-- Reads from the command's name on, after the given number of verbosity options. Verbosity options of
the command itself override those in front of it. -/
def readCommand (before : Nat) (name : String) (args : List String) :
    Except Refusal Invocation := do
  match Verb.read? name with
  | some verb =>
    let g ← Given.addItems {} (verb.grammar.readItems args)
    return ⟨if g.verbosity = 0 then before else g.verbosity, ← verb.command g⟩
  | none =>
    match name, args with
    | "help", [] => .error .help
    | "help", [topic] =>
      .error (if (Verb.read? topic).isSome ∨ topic = "help" then .help else .usage)
    | _, _ => .error .usage

def readArguments (before : Nat) : List String → Except Refusal Invocation
  | [] => .error .usage
  | arg :: rest =>
    if arg = "--" then .error .usage
    else if isOption arg then do
      let g ← Given.addItems { verbosity := before } (Grammar.general.readOption arg).items
      readArguments g.verbosity rest
    else readCommand before arg rest

end Command

def Invocation.ofArguments (args : List String) : Except Refusal Invocation :=
  Command.readArguments 0 args

end TapeLang
