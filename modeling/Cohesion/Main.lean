import Cohesion.CommandLine.Reader
import Cohesion.Session.Commands

/-!
The program on the command line: arguments and files of the machine go into a command, and what it
prints and notes comes out.
-/

namespace Cohesion

def fileErrorOf : IO.Error → FileError
  | .noFileOrDirectory .. => .notFound
  | .inappropriateType .. => .isDirectory
  | error => .other (toString error)

def attempt {Value : Type} (action : IO Value) : IO (Except FileError Value) := do
  try
    return .ok (← action)
  catch error =>
    return .error (fileErrorOf error)

def machineFiles : FileAccess IO where
  read path := attempt (return (← IO.FS.readBinFile path).data.toList)
  isFile path := return (← attempt (IO.FS.readBinFile path)).toOption.isSome
  write path content := attempt (IO.FS.writeBinFile path ⟨content.toArray⟩)

/-- A variable of the environment as a switch, which only a zero turns off. -/
def switch? (name : String) : IO (Option Bool) := return (← IO.getEnv name).map (· != "0")

/-- Whether standard output shows colours: it is a terminal, unless the environment decides. -/
def detectColours : IO Bool := do
  if (← switch? "CLICOLOR_FORCE") == some true then return true
  if (← switch? "NO_COLOR").isSome then return false
  return (← switch? "CLICOLOR").getD true && (← (← IO.getStdout).isTty)

def conclude (verbosity : Nat) (outcome : Outcome) : IO UInt32 := do
  for entry in Entry.shown verbosity outcome.journal do
    IO.eprintln entry.line
  IO.print outcome.output
  match outcome.result with
  | .ok () => return 0
  | .error failed =>
      for line in failed.context do
        IO.eprintln line
      IO.eprintln (failed.cause.message.getD "the text of the call graph is not usable")
      return 1

end Cohesion

def main (arguments : List String) : IO UInt32 := do
  match Cohesion.CommandLine.parse arguments with
  | .error error =>
      IO.println error.message
      return error.exitCode.toUInt32
  | .ok line =>
      let surroundings : Cohesion.Surroundings :=
        ⟨← Cohesion.attempt (return (← IO.currentDir).toString), ← Cohesion.detectColours⟩
      Cohesion.conclude line.verbosity (← line.command.runIn Cohesion.machineFiles surroundings)
