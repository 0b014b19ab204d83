/-!
The journal of a run: entries of different importance, of which the verbosity decides how many
are shown.
-/

namespace Cohesion

inductive Level where
  | warning
  | info
  | debug
  deriving DecidableEq

namespace Level

def name : Level → String
  | warning => "WARN"
  | info => "INFO"
  | debug => "DEBUG"

def verbosity : Level → Nat
  | warning => 0
  | info => 1
  | debug => 2

end Level

def verbosityDirective (verbosity : Nat) : String :=
  match verbosity with
  | 0 => "archmap=warn"
  | 1 => "archmap=info"
  | 2 => "archmap=debug"
  | _ => "archmap=trace"

structure Entry where
  level : Level
  text : String
  deriving DecidableEq

namespace Entry

def line (entry : Entry) : String := entry.level.name ++ " " ++ entry.text

def shown (verbosity : Nat) (entries : List Entry) : List Entry :=
  entries.filter fun entry => entry.level.verbosity ≤ verbosity

end Entry

end Cohesion
