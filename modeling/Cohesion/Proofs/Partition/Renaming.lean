import Cohesion.Proofs.Coupling.Sums
import Cohesion.Proofs.Partition.Image

/-!
# Only the order of class names matters

Classes under new names in the same order have the same edges in the same order, so every affinity
comes from the same additions. The dendrogram and its cuts then are the old ones with each name
replaced, whatever the weights are.
-/

namespace Cohesion

variable {W : Type}

def Edge.rename (rename : String → String) (edge : Edge W) : Edge W :=
  ⟨rename edge.source, rename edge.target, edge.weight⟩

namespace CouplingGraph

/-- The graph with every class under a new name, sources without targets as well. -/
def rename (graph : CouplingGraph W) (rename : String → String) : CouplingGraph W :=
  ⟨graph.table.rename rename⟩

variable {graph : CouplingGraph W} {rename : String → String}
  (order : StrictMonoOn rename {name | name ∈ graph.classes})

include order

theorem classes_rename : (graph.rename rename).classes = graph.classes.image rename :=
  NameTable.names_rename order

theorem edges_rename : (graph.rename rename).edges = graph.edges.map (Edge.rename rename) := by
  have cells := NameTable.cells_rename order
  rw [edges, CouplingGraph.rename, cells, edges, List.map_map, List.map_map]
  rfl

theorem joining_rename {first second : String} (firstKnown : first ∈ graph.classes)
    (secondKnown : second ∈ graph.classes) {edge : Edge W} (listed : edge ∈ graph.edges) :
    Affinity.Joining (rename first) (rename second) (edge.rename rename) ↔
      Affinity.Joining first second edge := by
  have ends := ends_mem_classes listed
  have same : ∀ {one other : String}, one ∈ graph.classes → other ∈ graph.classes →
      (rename one = rename other ↔ one = other) := by
    intro one other oneKnown otherKnown
    exact order.injOn.eq_iff oneKnown otherKnown
  simp only [Affinity.Joining, Edge.rename, same ends.1 firstKnown, same ends.1 secondKnown,
    same ends.2 firstKnown, same ends.2 secondKnown]

theorem carries_rename [Weight W] : graph.Carries rename id (graph.rename rename) where
  classes := classes_rename order
  affinity := by
    refine ⟨order, rescaling_id, fun first firstKnown second secondKnown _ => ?_⟩
    have joining : graph.edges.filter
          (fun edge => decide (Affinity.Joining (rename first) (rename second)
            (edge.rename rename))) =
        graph.edges.filter fun edge => decide (Affinity.Joining first second edge) := by
      apply List.filter_congr
      intro edge listed
      rw [decide_eq_decide]
      exact joining_rename order firstKnown secondKnown listed
    rw [Affinity.weight_of_graph, Affinity.weight_of_graph, edges_rename order, List.filter_map,
      List.map_map]
    simp only [Function.comp_def, joining]
    rfl

end CouplingGraph

/-- Under new names in the same byte order, the dendrogram is the old one with the names replaced,
and every finite threshold cuts it into the old modules with the names replaced. -/
theorem renamed_classes_cluster_alike [Weight W] {graph : CouplingGraph W}
    {rename : String → String}
    (order : ∀ first ∈ graph.classes, ∀ second ∈ graph.classes,
      nameBytes first < nameBytes second → nameBytes (rename first) < nameBytes (rename second)) :
    (graph.rename rename).cluster? = graph.cluster?.map (Dendrogram.map rename id) ∧
    ∀ dendrogram, graph.cluster? = some dendrogram →
      ∀ start threshold, Weight.isFinite threshold = true →
        ∃ partition,
          dendrogram.partitionFrom (Affinity.ofGraph graph) start threshold = .ok partition ∧
          (dendrogram.map rename id).partitionFrom (Affinity.ofGraph (graph.rename rename)) start
            threshold = .ok (partition.map rename id) := by
  have ordered : StrictMonoOn rename {name | name ∈ graph.classes} := by
    intro first firstKnown second secondKnown less
    rw [lt_iff_name_bytes] at less ⊢
    exact order first firstKnown second secondKnown less
  have carries := CouplingGraph.carries_rename ordered
  constructor
  · exact carries.cluster_image
  · intro dendrogram clustered start threshold finite
    exact carries.affinity.partition_from (cluster_grown clustered).classes_in start finite

theorem partly_unknown_renamed :
    ∃ dendrogram partition, partlyUnknown.cluster? = some dendrogram ∧
      (partlyUnknown.rename ("app::" ++ ·)).cluster? = some (dendrogram.map ("app::" ++ ·) id) ∧
      dendrogram.partition (Affinity.ofGraph partlyUnknown) 0.5 = .ok partition ∧
      (dendrogram.map ("app::" ++ ·) id).partition
        (Affinity.ofGraph (partlyUnknown.rename ("app::" ++ ·))) 0.5 =
          .ok (partition.map ("app::" ++ ·) id) := by
  have order : ∀ first ∈ partlyUnknown.classes.names, ∀ second ∈ partlyUnknown.classes.names,
      nameBytes first < nameBytes second →
        nameBytes ("app::" ++ first) < nameBytes ("app::" ++ second) := by
    decide +kernel
  obtain ⟨tree, cuts⟩ := renamed_classes_cluster_alike order
  have known : partlyUnknown.classes ≠ ∅ := by decide +kernel
  obtain ⟨dendrogram, clustered⟩ := CouplingGraph.exists_dendrogram known
  obtain ⟨partition, found, renamed⟩ :=
    cuts dendrogram clustered dendrogram.root 0.5 (by decide +kernel)
  rw [clustered, Option.map_some] at tree
  exact ⟨dendrogram, partition, clustered, tree, found, renamed⟩

end Cohesion
