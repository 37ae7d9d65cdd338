import TapeLang.Command.Session

/-! The command line: runs a command among real files and prints as it goes. -/

namespace TapeLang.Console

def versionLine : String :=
  "turtal-cli 0.0.1"

def usageLines : List String := [
  "Runs and inspects TurTaL tape-rewriting programs",
  "",
  "Usage: turtal [-v]... <COMMAND>",
  "",
  "Commands:",
  "  run [FILE]    Run a program and print the final tape",
  "  check [FILE]  Report likely mistakes in a program",
  "  fmt [FILE]    Print a program in canonical form",
  "  list          List the bundled programs",
  "",
  "Options of run, check and fmt:",
  "  -e, --example <NAME>     Use a bundled program instead of a file",
  "",
  "Options of run:",
  "  -t, --tape <CELLS>       Replace the initial tape with these comma-separated cells",
  "  -s, --state <STATE>      Replace the initial state",
  "  -d, --trace              Print each step of the execution",
  "      --format <FORMAT>    Output format: text or json",
  "      --max-steps <COUNT>  Stop after this many steps",
  "",
  "Options:",
  "  -v, --verbose            Increase log verbosity",
  "  -h, --help               Print help",
  "  -V, --version            Print version"]

def emit (o : Output) : IO Unit := do
  (← IO.getStdout).putStr (Output.joined o.out)
  (← IO.getStderr).putStr (Output.joined o.err)

/-- System codes come with either sign. -/
def readFailure : IO.Error → ReadFailure
  | .noFileOrDirectory .. => .notFound
  | .inappropriateType _ code details =>
    if code = 20 ∨ code + 20 = 0 then .notFolder
    else if code = 21 ∨ code + 21 = 0 then .isFolder
    else .other details
  | e => .other (toString e)

def fileContent (path : String) : IO (Except ReadFailure ByteArray) := do
  try
    return .ok (← IO.FS.readBinFile path)
  catch e =>
    return .error (readFailure e)

partial def readAll (stream : IO.FS.Stream) (bytes : ByteArray) : IO ByteArray := do
  let chunk ← stream.read 65536
  if chunk.isEmpty then return bytes else readAll stream (bytes ++ chunk)

def readInput : IO (Option ByteArray) := do
  let stdin ← IO.getStdin
  if ← stdin.isTty then return none
  return some (← readAll stdin ByteArray.empty)

/-- Reads what the command needs and nothing else. -/
def surroundings (command : Command) : IO Surroundings := do
  let nothing : Surroundings := ⟨fun _ => .error .notFound, none⟩
  let ofOrigin : Origin → IO Surroundings
    | .bundled _ => return nothing
    | .file path => do
      let content ← fileContent path
      return { nothing with fileContent := fun _ => content }
    | .input => return { nothing with input := ← readInput }
  match command with
  | .run o => ofOrigin o.origin
  | .check origin => ofOrigin origin
  | .fmt origin => ofOrigin origin
  | .list => return nothing

partial def play : Turn → IO Nat
  | .done o code => do
    emit o
    return code
  | .more o s => do
    emit o
    play s.turn

end TapeLang.Console

open TapeLang in
def main (args : List String) : IO UInt32 := do
  match Invocation.ofArguments args with
  | .error .usage =>
    (← IO.getStderr).putStr (Output.joined Console.usageLines)
    return 2
  | .error .help =>
    (← IO.getStdout).putStr (Output.joined Console.usageLines)
    return 0
  | .error .version =>
    (← IO.getStdout).putStrLn Console.versionLine
    return 0
  | .ok i =>
    let code ← Console.play (i.start (← Console.surroundings i.command))
    return code.toUInt32
