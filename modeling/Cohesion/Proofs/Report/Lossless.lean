import Cohesion.Proofs.Coupling.Counts
import Cohesion.Proofs.Report.Json

/-!
# The JSON report of an analysis loses nothing

The weights of a coupling graph are shares, at most one apart from rounding, and from a limit of this
kind on a sum of weights stops growing. So no number of a report is infinite, all its thresholds are
finite, and its dendrogram comes from a clustering.
-/

namespace Cohesion

section Weights

variable {separator : Separator} {calls : CallGraph}

theorem limited_weight {edge : Edge Float}
    (member : edge ∈ (CouplingGraph.ofCalls separator calls).edges) : Limited 54 edge.weight := by
  obtain ⟨positive, isShare⟩ := CouplingGraph.mem_edges_of_calls.mp member
  rw [isShare]
  exact limited_share positive CallGraph.relations_between_le

theorem limited_between (rows columns : NameSet) :
    Limited 162 ((Affinity.ofGraph (CouplingGraph.ofCalls separator calls)).between rows columns) := by
  have affinities : ∀ first second, Limited 108
      ((Affinity.ofGraph (CouplingGraph.ofCalls separator calls)).weight first second) :=
    Affinity.weight_of_edges (fun _ => Limited.accumulate (by decide)) fun _ => limited_weight
  exact Affinity.between_of_weights (fun _ => Limited.accumulate (by decide)) affinities rows columns

theorem total_not_infinite :
    (CouplingGraph.ofCalls separator calls : CouplingGraph Float).totalWeight.isInf = false := by
  apply Limited.sum_not_infinite (show 54 + 54 < 1024 by decide)
  intro weight member
  obtain ⟨edge, edgeMember, rfl⟩ := List.mem_map.mp member
  exact limited_weight edgeMember

theorem nodes_not_infinite {tree : Dendrogram Float}
    (clustered : (CouplingGraph.ofCalls separator calls).cluster? = some tree) :
    ∀ node ∈ tree.nodes, node.NotInfinite := by
  intro node member
  obtain ⟨id, stored⟩ := Array.getElem?_of_mem member
  cases node with
  | leaf name => trivial
  | merged left right coupling classes =>
      have isBetween := coupling_of_merged clustered stored
      rw [Node.NotInfinite, isBetween]
      exact (limited_between _ _).not_infinite

end Weights

/-- A module keeps its cohesion only where it is finite, whatever the affinities are. -/
theorem Node.finite_of_module {affinity : Affinity Float} {threshold : Float} {node : Node Float}
    {module : Module Float} (accepted : node.module? affinity threshold = some module) :
    module.Finite := by
  intro cohesion kept
  cases node with
  | leaf name =>
      cases accepted
      cases kept
  | merged left right coupling classes =>
      rw [Node.module?] at accepted
      split at accepted
      · cases accepted
        cases kept
      · split at accepted
        · cases accepted
          rw [Option.ite_none_right_eq_some, Option.some.injEq] at kept
          exact kept.2 ▸ kept.1
        · cases accepted

namespace Report

variable {calls : CallGraph} {options : AnalysisOptions Float} {report : Report Float}

theorem coupling_report_recoverable (separator : Separator) (calls : CallGraph) :
    (couplingReport separator calls).Recoverable where
  total := total_not_infinite
  weights _ member := (limited_weight member).not_infinite
  grown _ absent := nomatch absent
  couplings _ absent := nomatch absent
  thresholds _ member := nomatch member
  cohesions _ member := nomatch member

/-- The reports of an analysis can be recovered, whatever the options are. -/
theorem recoverable_of_analysis (reported : (analyse calls options).2 = .ok report) :
    report.Recoverable := by
  have start := coupling_report_recoverable options.separator calls
  rcases report_cases calls reported with rfl | ⟨tree, clustered, rfl | ⟨finite, rfl⟩⟩
  · exact start
  · refine { start with grown := ?_, couplings := ?_ }
    · intro other same
      cases same
      exact ⟨_, cluster_grown clustered⟩
    · intro other same
      cases same
      exact nodes_not_infinite clustered
  · refine { start with thresholds := ?_, cohesions := ?_ }
    · intro partition member
      obtain ⟨threshold, listed, rfl⟩ := List.mem_map.mp member
      exact finite threshold listed
    · intro partition member module isModule
      obtain ⟨threshold, _, rfl⟩ := List.mem_map.mp member
      obtain ⟨_, _, _, _, _, _, accepted⟩ := Arena.accepted_of_mem_cut isModule
      exact Node.finite_of_module accepted

end Report

/-- The text of a report is a JSON object on lines of its own. Reports of analyses with the same text
are the same, and dendrograms whose nodes are written alike have the same classes at every node. -/
theorem report_recovered_from_json {calls others : CallGraph}
    {options otherOptions : AnalysisOptions Float} {report other : Report Float}
    (reported : (analyse calls options).2 = .ok report)
    (otherReported : (analyse others otherOptions).2 = .ok other) :
    (∃ text, Json.IsObject text ∧ report.jsonText.toList = text ++ ['\n']) ∧
      (report.jsonText = other.jsonText → report = other) ∧
      ∀ tree second, report.dendrogram = some tree → other.dendrogram = some second →
        tree.nodes.map Node.toJson = second.nodes.map Node.toJson → tree.nodes = second.nodes := by
  have recoverable := Report.recoverable_of_analysis reported
  have otherRecoverable := Report.recoverable_of_analysis otherReported
  refine ⟨?_, ?_, ?_⟩
  · exact ⟨_, Json.is_object_indented _ 0, String.toList_append⟩
  · intro same
    have texts : report.toJson.indented 0 = other.toJson.indented 0 :=
      (String.append_left_inj "\n").mp same
    exact Report.report_inj recoverable otherRecoverable (Json.indented_inj texts)
  · intro tree second isTree isSecond same
    obtain ⟨classes, grown⟩ := recoverable.grown tree isTree
    obtain ⟨otherClasses, otherGrown⟩ := otherRecoverable.grown second isSecond
    apply nodes_inj grown otherGrown (recoverable.couplings tree isTree)
      (otherRecoverable.couplings second isSecond)
    have lists := congrArg (fun nodes => nodes.toList.map Json.written) same
    rw [Array.toList_map, Array.toList_map, List.map_map, List.map_map] at lists
    exact lists

/-- Two classes whose names cannot stand in a JSON text as they are. -/
def quotedNames : CallGraph := .ofPairs [("a\"b.f", "\\ü.g"), ("\\ü.g", "a\"b.h")]

theorem quoted_names_recovered : ∃ report other : Report Float,
    (analyse quotedNames ⟨.standard, .dendrogram, []⟩).2 = .ok report ∧
    (analyse quotedNames ⟨.standard, .modules, [0.5]⟩).2 = .ok other ∧
    (∃ text, Json.IsObject text ∧ report.jsonText.toList = text ++ ['\n']) ∧
    report.jsonText ≠ other.jsonText := by
  have clusters :
      (CouplingGraph.ofCalls .standard quotedNames : CouplingGraph Float).cluster?.isSome := by
    decide +kernel
  have finite : ∀ threshold ∈ [(0.5 : Float)], Weight.isFinite threshold = true := by
    decide +kernel
  obtain ⟨tree, clustered⟩ := Option.isSome_iff_exists.mp clusters
  have reported := dendrogram_result .standard quotedNames ([] : List Float)
  have otherReported := modules_result .standard quotedNames finite
  rw [clustered] at reported otherReported
  have recovered := report_recovered_from_json reported otherReported
  refine ⟨_, _, reported, otherReported, recovered.1, ?_⟩
  intro same
  have sameTree := congrArg Report.dendrogram (recovered.2.1 same)
  cases sameTree

end Cohesion
