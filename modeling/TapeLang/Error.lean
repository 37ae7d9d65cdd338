import TapeLang.Source.Canonical
import TapeLang.Source.Parse
import TapeLang.Machine.Run

/-! Everything that can go wrong with a program, from finding it to running it, and the one wording of
each. -/

namespace TapeLang

inductive ReadFailure
  | notFound
  | notFolder
  | isFolder
  /-- The bytes are not UTF-8. -/
  | notText
  | other (reason : String)
  deriving DecidableEq, Repr

namespace ReadFailure

def reason : ReadFailure → String
  | notFound => "No such file or directory (os error 2)"
  | notFolder => "Not a directory (os error 20)"
  | isFolder => "Is a directory (os error 21)"
  | notText => "stream did not contain valid UTF-8"
  | other reason => reason

end ReadFailure

inductive Error
  | source (e : SourceError)
  | run (e : RunError)
  | cancelled (steps : Nat)
  | inexpressible (e : Inexpressible)
  | unknownProgram (name : String)
  | unreadableFile (path : String) (f : ReadFailure)
  | unreadableInput (f : ReadFailure)
  | noInput
  | missingFolder (path : String)
  | unreadableFolder (path : String) (f : ReadFailure)
  | unreadableEntry (f : ReadFailure)
  /-- A file of a folder that has no program. -/
  | skipped (path : String) (cause : Error)
  deriving DecidableEq, Repr

namespace Error

def message : Error → String
  | source e => e.message
  | run e => e.message
  | cancelled steps => s!"Execution cancelled after {steps} steps"
  | inexpressible e => "Program validation error: " ++ e.message
  | unknownProgram name => s!"Program validation error: Program '{name}' not found"
  | unreadableFile path f => s!"File error: Failed to read file {path}: {f.reason}"
  | unreadableInput f => s!"File error: Failed to read program: {f.reason}"
  | noInput =>
    "File error: No program given: pass a file, --example, or pipe a program on stdin"
  | missingFolder path => s!"File error: Directory {path} does not exist"
  | unreadableFolder path f => s!"File error: Failed to read directory {path}: {f.reason}"
  | unreadableEntry f => s!"File error: Failed to read directory entry: {f.reason}"
  | skipped path cause => s!"File error: Failed to load program from {path}: " ++ cause.message

/-- The path of the file that is at fault, if one is named. -/
def path : Error → String
  | unreadableFile path _ => path
  | missingFolder path => path
  | unreadableFolder path _ => path
  | skipped path _ => path
  | _ => ""

def isSyntax : Error → Bool
  | source _ => true
  | _ => false

def isRuntime : Error → Bool
  | run _ => true
  | cancelled _ => true
  | _ => false

end Error

end TapeLang
