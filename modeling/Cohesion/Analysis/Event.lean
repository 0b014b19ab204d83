import Cohesion.Decimal.Layout
import Cohesion.Journal
import Cohesion.Partition

/-!
The events of an analysis. An event is noted as its message, followed by named values.
-/

namespace Cohesion

inductive AnalysisEvent (W : Type) where
  | callGraphRead (callers relations : Nat)
  | couplingBuilt (classes edges : Nat)
  | dendrogramBuilt (leaves merges : Nat)
  | modulesFound (threshold : W) (count : Nat)
  | remark (diagnostic : Diagnostic) (threshold : W)
  deriving DecidableEq

namespace AnalysisEvent

/-- The events of one partition: its size, then its remark if there is one. -/
def ofPartition {W : Type} (partition : Partition W) : List (AnalysisEvent W) :=
  modulesFound partition.threshold partition.modules.length ::
    (partition.diagnostic.map fun found => remark found partition.threshold).toList

def entry : AnalysisEvent Float → Entry
  | callGraphRead callers relations =>
      ⟨.debug, "Call graph loaded callers=" ++ toString callers ++ " relations=" ++
        toString relations⟩
  | couplingBuilt classes edges =>
      ⟨.info, "Coupling graph built classes=" ++ toString classes ++ " edges=" ++ toString edges⟩
  | dendrogramBuilt leaves merges =>
      ⟨.info, "Dendrogram built leaves=" ++ toString leaves ++ " merges=" ++ toString merges⟩
  | modulesFound threshold count =>
      ⟨.info, "Modules identified threshold=" ++ Decimal.plain threshold ++ " modules=" ++
        toString count⟩
  | remark diagnostic threshold =>
      ⟨.warning, diagnostic.text ++ " threshold=" ++ Decimal.plain threshold⟩

end AnalysisEvent

end Cohesion
