import Cohesion.Proofs.Clustering.Conservation
import Cohesion.Proofs.Coupling.Directions
import Cohesion.Proofs.Coupling.Insertion
import Cohesion.Proofs.Partition.Image

/-!
# Only undirected affinities matter

Neither the clustering nor a cut reads anything else of a graph than its classes and the weights of
both directions together for pairs of different classes. So edges may be turned round and loops set
on classes without any effect.
-/

namespace Cohesion

namespace CouplingGraph

/-- Both graphs have the same dendrogram, and every dendrogram has the same cuts over both. -/
structure ClustersAlike (one other : CouplingGraph Rat) : Prop where
  tree_exists : one.classes ≠ ∅ → ∃ dendrogram, one.cluster? = some dendrogram
  same_tree : other.cluster? = one.cluster?
  same_cut : ∀ (dendrogram : Dendrogram Rat) (start : Nat) (threshold : Rat), ∃ partition,
    dendrogram.partitionFrom (Affinity.ofGraph one) start threshold = .ok partition ∧
    dendrogram.partitionFrom (Affinity.ofGraph other) start threshold = .ok partition

variable {one other : CouplingGraph Rat}

/-- The two directions of every pair of different classes weigh the same together. -/
def SameUndirected (one other : CouplingGraph Rat) : Prop :=
  ∀ first ∈ one.classes, ∀ second ∈ one.classes, first ≠ second →
    other.undirected first second = one.undirected first second

theorem SameUndirected.carries (same : one.SameUndirected other)
    (classes : other.classes = one.classes) :
    (Affinity.ofGraph one).Carries id id (Affinity.ofGraph other) Set.univ := by
  refine ⟨strictMonoOn_id, rescaling_id, fun first _ second _ differs => ?_⟩
  rw [id, id, id, affinity_eq_undirected other differs, affinity_eq_undirected one differs]
  by_cases known : first ∈ one.classes ∧ second ∈ one.classes
  · exact same first known.1 second known.2 differs
  · rw [undirected_of_unknown one known, undirected_of_unknown other (classes ▸ known)]

theorem SameUndirected.clusters_alike (same : one.SameUndirected other)
    (classes : other.classes = one.classes) : one.ClustersAlike other := by
  have affinity := same.carries classes
  have carries : one.Carries id id other := by
    refine ⟨by rw [NameSet.image_id, classes], ?_⟩
    exact ⟨strictMonoOn_id, rescaling_id, fun first _ second _ =>
      affinity.weights first (Set.mem_univ first) second (Set.mem_univ second)⟩
  have unchanged : ∀ dendrogram : Dendrogram Rat, dendrogram.map id id = dendrogram :=
    Dendrogram.map_id
  constructor
  case tree_exists => exact exists_dendrogram
  case same_tree => rw [carries.cluster_image, funext unchanged, Option.map_id']
  case same_cut =>
    intro dendrogram start threshold
    have within : dendrogram.ClassesIn Set.univ := fun _ name _ => Set.mem_univ name
    have finite : Weight.isFinite threshold = true := rfl
    obtain ⟨partition, found, image⟩ := affinity.partition_from within start finite
    rw [unchanged, Partition.map_id] at image
    exact ⟨partition, found, image⟩

/-- The other graph has the same classes, and every edge the other way round. -/
structure Reverses (other one : CouplingGraph Rat) : Prop where
  classes : other.classes = one.classes
  weights : ∀ source ∈ one.classes, ∀ target ∈ one.classes,
    other.weight? source target = one.weight? target source

def setLoops (graph : CouplingGraph Rat) (loops : List (String × Rat)) : CouplingGraph Rat :=
  loops.foldl (fun graph loop => graph.insert loop.1 loop.1 loop.2) graph

theorem classes_set_loops {graph : CouplingGraph Rat} {loops : List (String × Rat)}
    (known : ∀ loop ∈ loops, loop.1 ∈ graph.classes) :
    (graph.setLoops loops).classes = graph.classes := by
  induction loops generalizing graph with
  | nil => rfl
  | cons loop rest induction =>
      rw [List.forall_mem_cons] at known
      have kept : (graph.insert loop.1 loop.1 loop.2).classes = graph.classes := by
        ext name
        rw [mem_classes_insert]
        constructor
        · rintro (rfl | rfl | inside)
          · exact known.1
          · exact known.1
          · exact inside
        · exact fun inside => .inr (.inr inside)
      rw [setLoops, List.foldl_cons, ← setLoops, induction, kept]
      rw [kept]
      exact known.2

theorem weight?_set_loops (graph : CouplingGraph Rat) (loops : List (String × Rat))
    {first second : String} (differs : first ≠ second) :
    (graph.setLoops loops).weight? first second = graph.weight? first second := by
  induction loops generalizing graph with
  | nil => rfl
  | cons loop rest induction =>
      rw [setLoops, List.foldl_cons, ← setLoops, induction, weight?_insert, if_neg]
      intro same
      exact differs (same.1.trans same.2.symm)

end CouplingGraph

/-- Graphs with the same classes and the same undirected weights between different classes are
clustered and cut alike. In particular edges may be turned round, and loops set on classes. -/
theorem undirected_weights_decide (graph : CouplingGraph Rat) :
    (∀ other : CouplingGraph Rat, other.classes = graph.classes → graph.SameUndirected other →
      graph.ClustersAlike other) ∧
    (∀ other : CouplingGraph Rat, other.Reverses graph → graph.ClustersAlike other) ∧
    ∀ loops : List (String × Rat), (∀ loop ∈ loops, loop.1 ∈ graph.classes) →
      graph.ClustersAlike (graph.setLoops loops) := by
  refine ⟨fun other classes same => same.clusters_alike classes, fun other reverses => ?_,
    fun loops known => ?_⟩
  · have same : graph.SameUndirected other := by
      intro first firstKnown second secondKnown _
      rw [CouplingGraph.undirected, reverses.weights first firstKnown second secondKnown,
        reverses.weights second secondKnown first firstKnown]
      exact graph.undirected_comm second first
    exact same.clusters_alike reverses.classes
  · have same : graph.SameUndirected (graph.setLoops loops) := by
      intro first _ second _ differs
      rw [CouplingGraph.undirected, graph.weight?_set_loops loops differs,
        graph.weight?_set_loops loops differs.symm]
      rfl
    exact same.clusters_alike (CouplingGraph.classes_set_loops known)

/-- The ring with the weights of both directions of a pair put on one edge, and without its loop. -/
def gatheredRing : CouplingGraph Rat :=
  .ofEdges [⟨"b", "a", 3 / 4⟩, ⟨"b", "c", 1 / 3⟩, ⟨"a", "c", -1 / 6⟩]

def turnedRing : CouplingGraph Rat :=
  .ofEdges [⟨"b", "a", 1 / 2⟩, ⟨"a", "b", 1 / 4⟩, ⟨"c", "b", 1 / 3⟩, ⟨"a", "c", -1 / 6⟩,
    ⟨"c", "c", 5⟩]

theorem rings_cluster_alike : signedRing.ClustersAlike gatheredRing ∧
    signedRing.ClustersAlike turnedRing ∧
    signedRing.ClustersAlike (signedRing.setLoops [("a", 7), ("c", -2), ("a", 1 / 2)]) := by
  obtain ⟨gathered, turned, looped⟩ := undirected_weights_decide signedRing
  have same : ∀ first ∈ signedRing.classes.names, ∀ second ∈ signedRing.classes.names,
      first ≠ second → gatheredRing.undirected first second = signedRing.undirected first second := by
    decide +kernel
  have weights : ∀ source ∈ signedRing.classes.names, ∀ target ∈ signedRing.classes.names,
      turnedRing.weight? source target = signedRing.weight? target source := by
    decide +kernel
  have known : ∀ loop ∈ [("a", (7 : Rat)), ("c", -2), ("a", 1 / 2)],
      loop.1 ∈ signedRing.classes := by
    decide +kernel
  exact ⟨gathered gatheredRing (by decide +kernel) same,
    turned turnedRing ⟨by decide +kernel, weights⟩, looped _ known⟩

end Cohesion
