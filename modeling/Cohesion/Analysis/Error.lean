import Cohesion.Decimal.Layout

/-!
Why an analysis fails.
-/

namespace Cohesion

/-- A graph without classes has no dendrogram, and a threshold has to be a finite number. -/
inductive AnalysisError (W : Type) where
  | emptyGraph
  | invalidThreshold (value : W)
  deriving DecidableEq

def AnalysisError.message : AnalysisError Float → String
  | emptyGraph => "Empty graph: the coupling graph contains no classes to cluster"
  | invalidThreshold value =>
      "Invalid threshold: " ++ Decimal.plain value ++ " is not a finite number"

end Cohesion
