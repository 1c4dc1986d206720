import Tabular.Command

/-!
# The program

Arguments come in, output goes out; what happens in between is `Command.run`. The
exit code is 0 for success, 1 for a failure and 2 for arguments that make no sense.
-/
namespace Tabular

/-- The content of a file on disk, if it can be read as text. -/
def FileReader.disk : FileReader IO := fun path =>
  try return some (← IO.FS.readFile path) catch _ => return none

/-- The command line: what it prints and its exit code. -/
def Command.execute (arguments : List String) : IO UInt32 := do
  match Invocation.parse arguments with
  | .error .version =>
    IO.print versionText
    return 0
  | .error .usage =>
    IO.eprintln "error: arguments not understood"
    return 2
  | .ok invocation =>
    let outcome ← run FileReader.disk invocation
    IO.print outcome.out
    IO.eprint outcome.err
    match outcome.failure? with
    | none => return 0
    | some e =>
      IO.eprintln ("Error: " ++ e.message)
      return 1

end Tabular

def main (arguments : List String) : IO UInt32 := Tabular.Command.execute arguments
