import Cohesion.Proofs.Analysis.Stages
import Cohesion.Proofs.Clustering.Greedy
import Cohesion.Proofs.Clustering.Recovery
import Cohesion.Proofs.Json.CouplingGraphs
import Cohesion.Proofs.Json.Grammar
import Cohesion.Proofs.Partition.Cover
import Cohesion.Proofs.Weight.Saturation
import Cohesion.Report.Json

/-!
# The JSON text of a report determines it

Each section of a report can be read off its JSON: names and counts as they stand, numbers because
none of them is infinite, and the classes of a dendrogram because they follow from its list of nodes.
The reports of an analysis are such reports.
-/

namespace Cohesion

section Parts

/-- What is told of each item by what is shown of it is told of a list of items. -/
theorem map_eq_of_map_eq {Item Shown Seen : Type} {shown : Item → Shown} {seen : Item → Seen}
    {items others : List Item}
    (told : ∀ item ∈ items, ∀ other ∈ others, shown item = shown other → seen item = seen other)
    (same : items.map shown = others.map shown) : items.map seen = others.map seen := by
  induction items generalizing others with
  | nil =>
      rw [List.map_nil, eq_comm, List.map_eq_nil_iff] at same
      rw [same]
  | cons item items induction =>
      cases others with
      | nil => simp at same
      | cons other others =>
          simp only [List.map_cons, List.cons.injEq] at same
          have first := told item List.mem_cons_self other List.mem_cons_self same.1
          have rest := induction (fun one member two second =>
            told one (List.mem_cons_of_mem _ member) two (List.mem_cons_of_mem _ second)) same.2
          rw [List.map_cons, List.map_cons, first, rest]

theorem eq_of_map_eq {Item Shown : Type} {shown : Item → Shown} {items others : List Item}
    (told : ∀ item ∈ items, ∀ other ∈ others, shown item = shown other → item = other)
    (same : items.map shown = others.map shown) : items = others := by
  have seen : items.map id = others.map id := map_eq_of_map_eq told same
  rwa [List.map_id, List.map_id] at seen

/-- A number that is not infinite can be told from its text, and so can the one that is no number. -/
theorem number_inj {first second : Float} (notInfinite : first.isInf = false)
    (otherNotInfinite : second.isInf = false)
    (same : (Json.number first).written = (Json.number second).written) : first = second := by
  have no_number : ∀ {value : Float}, value.isInf = false → ¬value.isFinite = true →
      value.toModel.unpack = .notANumber := by
    intro value notInfinite notFinite
    change value.toModel.unpack.isInf = false at notInfinite
    change ¬value.toModel.unpack.isFinite = true at notFinite
    generalize value.toModel.unpack = unpacked at notInfinite notFinite ⊢
    cases unpacked with
    | notANumber => rfl
    | infinity => cases notInfinite
    | zero => exact absurd rfl notFinite
    | finite => exact absurd rfl notFinite
  rw [Json.written, Json.written] at same
  split_ifs at same with finite otherFinite otherFinite
  · simpa using same
  · exact float_eq_of_unpack ((no_number notInfinite finite).trans
      (no_number otherNotInfinite otherFinite).symm)

theorem number_inj_of_finite {first second : Float} (finite : first.isFinite = true)
    (otherFinite : second.isFinite = true)
    (same : (Json.number first).written = (Json.number second).written) : first = second := by
  simpa [Json.written, finite, otherFinite] using same

theorem names_inj {first second : NameSet}
    (same : first.toJson.written = second.toJson.written) : first = second := by
  obtain ⟨names, _⟩ := first
  obtain ⟨others, _⟩ := second
  simp only [NameSet.toJson, NameSet.toList, Json.written_array, List.map_map,
    Json.array.injEq] at same
  have equal : names = others := by
    apply eq_of_map_eq _ same
    intro name _ other _ shown
    simpa using shown
  subst equal
  rfl

theorem NameMap.eq_of_to_list {Value : Type} {map other : NameMap Value}
    (same : map.toList = other.toList) : map = other := by
  obtain ⟨entries, _⟩ := map
  obtain ⟨others, _⟩ := other
  have equal : entries = others := same
  subst equal
  rfl

end Parts

section Coupling

variable {graph other : CouplingGraph Float}

theorem coupling_graph_inj (notInfinite : ∀ edge ∈ graph.edges, edge.weight.isInf = false)
    (otherNotInfinite : ∀ edge ∈ other.edges, edge.weight.isInf = false)
    (same : graph.toJson.written = other.toJson.written) : graph = other := by
  simp only [CouplingGraph.toJson, Json.written_object, List.map_map, Json.object.injEq] at same
  have rows : graph.table.rows.toList = other.table.rows.toList := by
    apply eq_of_map_eq _ same
    intro row isRow otherRow otherIsRow shown
    simp only [Function.comp_apply, Json.written_object, List.map_map, Prod.mk.injEq,
      Json.object.injEq] at shown
    obtain ⟨source, targets⟩ := row
    obtain ⟨otherSource, otherTargets⟩ := otherRow
    have cells : targets.toList = otherTargets.toList := by
      apply eq_of_map_eq _ shown.2
      intro cell isCell otherCell otherIsCell shownCell
      simp only [Function.comp_apply, Prod.mk.injEq] at shownCell
      have weights := number_inj
        (notInfinite _ (CouplingGraph.mem_edges_of_cell isRow isCell))
        (otherNotInfinite _ (CouplingGraph.mem_edges_of_cell otherIsRow otherIsCell)) shownCell.2
      exact Prod.ext shownCell.1 weights
    exact Prod.ext shown.1 (NameMap.eq_of_to_list cells)
  exact congrArg (fun rows => CouplingGraph.mk (NameTable.mk rows)) (NameMap.eq_of_to_list rows)

theorem summary_inj {summary second : CouplingSummary Float}
    (notInfinite : summary.totalWeight.isInf = false)
    (otherNotInfinite : second.totalWeight.isInf = false)
    (same : summary.toJson.written = second.toJson.written) : summary = second := by
  obtain ⟨classCount, edgeCount, totalWeight⟩ := summary
  obtain ⟨otherClassCount, otherEdgeCount, otherTotalWeight⟩ := second
  simp only [CouplingSummary.toJson, Json.written_object, Json.written_count, List.map_cons,
    List.map_nil, Json.object.injEq, List.cons.injEq, Prod.mk.injEq, Json.count.injEq, true_and,
    and_true] at same
  obtain ⟨rfl, rfl, total⟩ := same
  have equal : totalWeight = otherTotalWeight := number_inj notInfinite otherNotInfinite total
  rw [equal]

theorem stats_inj {stats second : CallGraphStats}
    (same : stats.toJson.written = second.toJson.written) : stats = second := by
  obtain ⟨callers, relations⟩ := stats
  obtain ⟨otherCallers, otherRelations⟩ := second
  simpa [CallGraphStats.toJson] using same

end Coupling

section Dendrograms

def Node.NotInfinite : Node Float → Prop
  | .leaf _ => True
  | .merged _ _ coupling _ => coupling.isInf = false

theorem node_inj {node other : Node Float} (notInfinite : node.NotInfinite)
    (otherNotInfinite : other.NotInfinite) (same : node.toJson.written = other.toJson.written) :
    node.bare = other.bare := by
  cases node with
  | leaf name =>
      cases other with
      | leaf otherName => simpa [Node.toJson, Node.bare] using same
      | merged => simp [Node.toJson] at same
  | merged left right coupling classes =>
      cases other with
      | leaf => simp [Node.toJson] at same
      | merged otherLeft otherRight otherCoupling otherClasses =>
          simp only [Node.toJson, Json.written_object, Json.written_count, List.map_cons,
            List.map_nil, Json.object.injEq, List.cons.injEq, Prod.mk.injEq, Json.count.injEq,
            true_and, and_true] at same
          obtain ⟨rfl, rfl, numbers⟩ := same
          have equal : coupling = otherCoupling := number_inj notInfinite otherNotInfinite numbers
          rw [Node.bare, Node.bare, equal]

variable {tree other : Dendrogram Float} {classes otherClasses : NameSet}

/-- The nodes as they are written determine the nodes, with the classes that are not written. -/
theorem nodes_inj (grown : tree.Grown classes) (otherGrown : other.Grown otherClasses)
    (notInfinite : ∀ node ∈ tree.nodes, node.NotInfinite)
    (otherNotInfinite : ∀ node ∈ other.nodes, node.NotInfinite)
    (same : tree.nodes.toList.map (fun node => node.toJson.written) =
      other.nodes.toList.map (fun node => node.toJson.written)) : tree.nodes = other.nodes := by
  have bare : tree.nodes.toList.map Node.bare = other.nodes.toList.map Node.bare := by
    apply map_eq_of_map_eq _ same
    intro node member otherNode otherMember shown
    exact node_inj (notInfinite node (Array.mem_toList_iff.mp member))
      (otherNotInfinite otherNode (Array.mem_toList_iff.mp otherMember)) shown
  apply grown.nodes_eq_of_bare otherGrown
  apply Array.toList_inj.mp
  rw [Array.toList_map, Array.toList_map, bare]

theorem dendrogram_inj (grown : tree.Grown classes) (otherGrown : other.Grown otherClasses)
    (notInfinite : ∀ node ∈ tree.nodes, node.NotInfinite)
    (otherNotInfinite : ∀ node ∈ other.nodes, node.NotInfinite)
    (same : tree.toJson.written = other.toJson.written) : tree = other := by
  simp only [Dendrogram.toJson, Json.written_object, Json.written_array, List.map_cons, List.map_nil,
    List.map_map, Json.object.injEq, Json.array.injEq, List.cons.injEq, Prod.mk.injEq, true_and,
    and_true] at same
  obtain ⟨nodes, root⟩ := same
  apply Dendrogram.eq_of_nodes (nodes_inj grown otherGrown notInfinite otherNotInfinite nodes)
  simpa using root

end Dendrograms

section Partitions

def Module.Finite (module : Module Float) : Prop :=
  ∀ cohesion, module.cohesion = some cohesion → cohesion.isFinite = true

theorem module_inj {module other : Module Float} (finite : module.Finite)
    (otherFinite : other.Finite) (same : module.toJson.written = other.toJson.written) :
    module = other := by
  obtain ⟨classes, cohesion⟩ := module
  obtain ⟨otherClasses, otherCohesion⟩ := other
  simp only [Module.toJson, Json.written_object, List.map_cons, List.map_nil, Json.object.injEq,
    List.cons.injEq, Prod.mk.injEq, true_and, and_true] at same
  rw [names_inj same.1]
  have numbers := same.2
  cases cohesion with
  | none =>
      cases otherCohesion with
      | none => rfl
      | some number => simp [Json.written, otherFinite number rfl] at numbers
  | some number =>
      cases otherCohesion with
      | none => simp [Json.written, finite number rfl] at numbers
      | some otherNumber =>
          rw [number_inj_of_finite (finite number rfl) (otherFinite otherNumber rfl) numbers]

theorem diagnostic_inj {diagnostic other : Option Diagnostic}
    (same : ((diagnostic.map Diagnostic.toJson).getD .null).written =
      ((other.map Diagnostic.toJson).getD .null).written) : diagnostic = other := by
  cases diagnostic with
  | none =>
      cases other with
      | none => rfl
      | some remark =>
          cases remark
          simp [Diagnostic.toJson] at same
  | some remark =>
      cases remark
      cases other with
      | none => simp [Diagnostic.toJson] at same
      | some otherRemark =>
          cases otherRemark
          simpa [Diagnostic.toJson] using same

theorem partition_inj {partition other : Partition Float}
    (finite : partition.threshold.isFinite = true) (otherFinite : other.threshold.isFinite = true)
    (modules : ∀ module ∈ partition.modules, module.Finite)
    (otherModules : ∀ module ∈ other.modules, module.Finite)
    (same : partition.toJson.written = other.toJson.written) : partition = other := by
  obtain ⟨threshold, classCount, parts, diagnostic⟩ := partition
  obtain ⟨otherThreshold, otherClassCount, otherParts, otherDiagnostic⟩ := other
  simp only [Partition.toJson, Json.written_object, Json.written_array, Json.written_count,
    List.map_cons, List.map_nil, List.map_map, Json.object.injEq, Json.array.injEq, List.cons.injEq,
    Prod.mk.injEq, Json.count.injEq, true_and, and_true] at same
  obtain ⟨numbers, rfl, lists, remarks⟩ := same
  have thresholds : threshold = otherThreshold :=
    number_inj_of_finite finite otherFinite numbers
  have equal : parts = otherParts := eq_of_map_eq (fun module member other otherMember =>
    module_inj (modules module member) (otherModules other otherMember)) lists
  rw [thresholds, equal, diagnostic_inj remarks]

end Partitions

namespace Report

/-- No number of the report is infinite, and its dendrogram is one of a clustering. -/
structure Recoverable (report : Report Float) : Prop where
  total : report.summary.totalWeight.isInf = false
  weights : ∀ edge ∈ report.coupling.edges, edge.weight.isInf = false
  grown : ∀ tree, report.dendrogram = some tree → ∃ classes, tree.Grown classes
  couplings : ∀ tree, report.dendrogram = some tree → ∀ node ∈ tree.nodes, node.NotInfinite
  thresholds : ∀ partition ∈ report.partitions, partition.threshold.isFinite = true
  cohesions : ∀ partition ∈ report.partitions, ∀ module ∈ partition.modules, module.Finite

/-- A section is left out only where there is nothing in it, so its contents can be told from the
sections that are there. -/
theorem sections_inj {tree otherTree : Option Json} {partitions otherPartitions : List Json}
    (same : (tree.map fun json => ("dendrogram", json)).toList ++
        (if partitions.isEmpty then [] else [("partitions", Json.array partitions)]) =
      (otherTree.map fun json => ("dendrogram", json)).toList ++
        (if otherPartitions.isEmpty then [] else [("partitions", Json.array otherPartitions)])) :
    tree = otherTree ∧ partitions = otherPartitions := by
  cases tree <;> cases otherTree <;> cases partitions <;> cases otherPartitions <;>
    simp_all

variable {report other : Report Float}

theorem written_sections (report : Report Float) : report.toJson.written = .object
    ([("call_graph", report.callGraph.toJson.written),
        ("coupling_summary", report.summary.toJson.written),
        ("coupling", report.coupling.toJson.written)] ++
      (((report.dendrogram.map fun tree => tree.toJson.written).map fun json =>
          ("dendrogram", json)).toList ++
        (if (report.partitions.map fun partition => partition.toJson.written).isEmpty then []
          else [("partitions", Json.array
            (report.partitions.map fun partition => partition.toJson.written))]))) := by
  obtain ⟨stats, summary, coupling, dendrogram, partitions⟩ := report
  cases dendrogram <;> cases partitions <;> simp [toJson]

theorem same_dendrogram (recoverable : report.Recoverable) (otherRecoverable : other.Recoverable)
    (same : report.dendrogram.map (fun tree => tree.toJson.written) =
      other.dendrogram.map (fun tree => tree.toJson.written)) :
    report.dendrogram = other.dendrogram := by
  cases isTree : report.dendrogram with
  | none =>
      rw [isTree, Option.map_none, eq_comm, Option.map_eq_none_iff] at same
      exact same.symm
  | some tree =>
      rw [isTree, Option.map_some, eq_comm, Option.map_eq_some_iff] at same
      obtain ⟨second, isSecond, alike⟩ := same
      obtain ⟨classes, grown⟩ := recoverable.grown tree isTree
      obtain ⟨otherClasses, otherGrown⟩ := otherRecoverable.grown second isSecond
      have equal := dendrogram_inj grown otherGrown (recoverable.couplings tree isTree)
        (otherRecoverable.couplings second isSecond) alike.symm
      rw [equal, isSecond]

theorem report_inj (recoverable : report.Recoverable) (otherRecoverable : other.Recoverable)
    (same : report.toJson.written = other.toJson.written) : report = other := by
  rw [written_sections, written_sections, Json.object.injEq] at same
  simp only [List.cons_append, List.nil_append, List.cons.injEq, Prod.mk.injEq, true_and] at same
  obtain ⟨stats, summaries, couplings, sections⟩ := same
  obtain ⟨trees, partitions⟩ := sections_inj sections
  have sameStats := stats_inj stats
  have sameSummary := summary_inj recoverable.total otherRecoverable.total summaries
  have sameCoupling := coupling_graph_inj recoverable.weights otherRecoverable.weights couplings
  have sameTree := same_dendrogram recoverable otherRecoverable trees
  have sameParts : report.partitions = other.partitions := by
    apply eq_of_map_eq _ partitions
    intro partition member otherPartition otherMember
    exact partition_inj (recoverable.thresholds partition member)
      (otherRecoverable.thresholds otherPartition otherMember)
      (recoverable.cohesions partition member)
      (otherRecoverable.cohesions otherPartition otherMember)
  cases report
  cases other
  simp only at sameStats sameSummary sameCoupling sameTree sameParts
  rw [sameStats, sameSummary, sameCoupling, sameTree, sameParts]

end Report

end Cohesion
