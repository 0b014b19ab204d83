/-!
What can be wrong with a JSON text.
-/

namespace Cohesion.Json

/-- The text stops inside a value, breaks the rules of the format, has a value of another type
than expected, or cannot be read at all. -/
inductive Defect where
  | ended
  | malformed
  | mistyped
  | unreadable
  deriving DecidableEq

def Defect.missing (rest : List UInt8) : Defect := if rest.isEmpty then ended else malformed

end Cohesion.Json
