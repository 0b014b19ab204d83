import Cohesion.Report.Format

/-!
Command lines: the commands with their arguments, and why a command line is turned down.
-/

namespace Cohesion

structure InputArguments where
  callGraph : String
  config : Option String
  separator : Option String
  format : Option OutputFormat
  output : Option String
  plain : Bool
  deriving DecidableEq

inductive Command where
  | coupling (input : InputArguments)
  | dendrogram (input : InputArguments)
  | modules (input : InputArguments) (thresholds : Option (List Float))
  | init (force : Bool)

structure CommandLine where
  command : Command
  verbosity : Nat

/-- Why no command is run. Asking for help or for the version is among the reasons. -/
inductive UsageError where
  | helpWanted
  | versionWanted
  | nothingGiven
  | missingCommand
  | unknownCommand
  | missingPath
  | unknownArgument
  | repeatedArgument
  | needlessValue
  | invalidValue
  | invalidNumber
  deriving DecidableEq

def UsageError.exitCode : UsageError → Nat
  | helpWanted | versionWanted => 0
  | _ => 2

def UsageError.message : UsageError → String
  | helpWanted | nothingGiven | missingCommand =>
      "Usage: archmap [-v]... coupling | dendrogram | modules | init [OPTIONS] [CALL_GRAPH]"
  | versionWanted => "archmap 0.1.0"
  | unknownCommand => "error: unrecognized command"
  | missingPath => "error: the path of the call graph is missing"
  | unknownArgument => "error: unexpected argument"
  | repeatedArgument => "error: an argument is given more than once"
  | needlessValue => "error: an option that stands alone is given a value"
  | invalidValue => "error: a value is missing or not allowed"
  | invalidNumber => "error: a threshold is not a number"

end Cohesion
