import Cohesion.Analysis.Event
import Cohesion.Clustering.Forest
import Cohesion.Coupling.Shares

/-!
The analysis of a call graph, up to a chosen stage: coupling of the classes, their dendrogram, or
one partition into modules for each threshold. The result comes with the events on the way to it.
-/

namespace Cohesion

inductive Stage where
  | coupling
  | dendrogram
  | modules
  deriving DecidableEq

structure AnalysisOptions (W : Type) where
  separator : Separator
  stage : Stage
  thresholds : List W
  deriving DecidableEq

structure CallGraphStats where
  callers : Nat
  relations : Nat
  deriving DecidableEq

def CallGraph.stats (calls : CallGraph) : CallGraphStats := ⟨calls.callerCount, calls.relationCount⟩

/-- The result of an analysis. The dendrogram is kept at its own stage only. -/
structure Report (W : Type) where
  callGraph : CallGraphStats
  summary : CouplingSummary W
  coupling : CouplingGraph W
  dendrogram : Option (Dendrogram W)
  partitions : List (Partition W)
  deriving DecidableEq

variable {W : Type} [Weight W]

/-- Analyse a call graph. Thresholds are checked before anything is clustered. -/
def analyse (calls : CallGraph) (options : AnalysisOptions W) :
    List (AnalysisEvent W) × Except (AnalysisError W) (Report W) :=
  let stats := calls.stats
  let coupling : CouplingGraph W := CouplingGraph.ofCalls options.separator calls
  let summary := coupling.summary
  let report : Report W := ⟨stats, summary, coupling, none, []⟩
  let opening := [.callGraphRead stats.callers stats.relations,
    .couplingBuilt summary.classCount summary.edgeCount]
  let cluster (complete : Dendrogram W →
      List (AnalysisEvent W) × Except (AnalysisError W) (Report W)) :=
    match coupling.cluster? with
    | none => (opening, .error .emptyGraph)
    | some dendrogram =>
        let (events, result) := complete dendrogram
        (opening ++ .dendrogramBuilt dendrogram.size dendrogram.merges.length :: events, result)
  match options.stage with
  | .coupling => (opening, .ok report)
  | .dendrogram => cluster fun dendrogram =>
      ([], .ok { report with dendrogram := some dendrogram })
  | .modules =>
      match checkThresholds options.thresholds with
      | .error error => (opening, .error error)
      | .ok () => cluster fun dendrogram =>
          match dendrogram.sweep (Affinity.ofGraph coupling) options.thresholds with
          | .error error => ([], .error error)
          | .ok partitions =>
              (partitions.flatMap AnalysisEvent.ofPartition, .ok { report with partitions })

end Cohesion
