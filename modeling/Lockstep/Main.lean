import Lockstep.Cli.Run

/-!
# The command line

Reads the files that the arguments name, runs the command, and prints.
-/

namespace Lockstep.Cli

/-- The reason why a file cannot be read. -/
def reason : IO.Error → String
  | .noFileOrDirectory .. => "No such file or directory (os error 2)"
  | .permissionDenied .. => "Permission denied (os error 13)"
  | .inappropriateType .. => "Is a directory (os error 21)"
  | other => toString other

def readFile (file : String) : IO (Except String String) := do
  try
    return .ok (← IO.FS.readFile file)
  catch e =>
    return .error (reason e)

def filesOf : Option Command → List String
  | some (.replay options) => options.file :: options.config.toList
  | _ => []

/-- Reads the files that a command line names, and runs it. -/
def runIO (arguments : List String) : IO UInt32 := do
  let names := filesOf (readArguments arguments)
  let contents ← names.mapM readFile
  let files : Files := fun file => ((names.zip contents).lookup file).getD (.error "")
  let outcome := run files arguments
  for n in outcome.log do
    IO.eprintln ("[" ++ n.level.name ++ "] " ++ n.message)
  IO.print outcome.output
  IO.eprint outcome.errors
  return outcome.status.toUInt32

end Lockstep.Cli

def main (arguments : List String) : IO UInt32 := Lockstep.Cli.runIO arguments
