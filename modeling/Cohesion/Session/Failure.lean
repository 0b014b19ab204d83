import Cohesion.Analysis.Error
import Cohesion.Files.Error
import Cohesion.Json.Defect
import Cohesion.Settings.Basic

/-!
Why a command fails: the cause, and what was being done, outermost first.
-/

namespace Cohesion

inductive Cause where
  | configuration (error : ConfigurationError)
  | input (path : String) (error : FileError)
  | callGraph (defect : Json.Defect)
  | analysis (error : AnalysisError Float)
  | file (error : FileError)
  | configurationExists

/-- The text of a cause. What is wrong with a JSON text has no fixed wording. -/
def Cause.message : Cause → Option String
  | configuration error => some error.message
  | input path error => some ("Failed to read " ++ path ++ ": " ++ error.message)
  | callGraph _ => none
  | analysis error => some error.message
  | file error => some error.message
  | configurationExists =>
      some "Configuration file already exists. Use --force to overwrite."

structure Failure where
  cause : Cause
  context : List String

end Cohesion
