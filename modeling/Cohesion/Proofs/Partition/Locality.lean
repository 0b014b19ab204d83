import Cohesion.Proofs.Clustering.Locality
import Cohesion.Proofs.Partition.Queue

/-!
# Cutting what is below a node

A tree that was clustered alone is cut into the same modules as the tree it is a part of, from the
node above it on: the two queues hold the same nodes, renumbered.
-/

namespace Cohesion

variable {W : Type} [Weight W]

theorem Node.module_relabel {affinity inner : Affinity W} {kept : NameSet}
    (agree : inner.AgreeOn affinity kept) (threshold : W) (place : Nat → Nat) {node : Node W}
    (inside : ∀ name ∈ node.classes, name ∈ kept) :
    (node.relabel place).module? affinity threshold = node.module? inner threshold := by
  cases node with
  | leaf name => rfl
  | merged left right coupling classes =>
      have average := agree.average inside
      rw [Node.classes] at average
      simp only [Node.relabel, Node.module?, average]

theorem Dendrogram.IsSubtreeAt.cut_eq {part whole : Dendrogram W} {top : Nat} {place : Nat → Nat}
    (subtree : part.IsSubtreeAt whole top place) {affinity inner : Affinity W} {kept : NameSet}
    (agree : inner.AgreeOn affinity kept)
    (inside : ∀ number < part.nodes.size, ∀ name ∈ part.classesAt number, name ∈ kept)
    (threshold : W) {waiting : List Nat} (bounded : ∀ id ∈ waiting, id < part.nodes.size) :
    part.cut inner threshold waiting = whole.cut affinity threshold (waiting.map place) := by
  apply part.known_queue_induction ?_ ?_ bounded
  · rfl
  · intro id node waiting stored rest children
    have moved := subtree.same id (Arena.lt_of_stored stored)
    rw [stored, Option.map_some] at moved
    have classes := inside id (Arena.lt_of_stored stored)
    rw [Arena.classes_at_stored stored] at classes
    have decided := Node.module_relabel agree threshold place classes
    rw [List.map_cons, Arena.cut_cons, Arena.cut_cons, stored, moved]
    rw [List.map_append] at children
    simp only [decided, Node.children_relabel, rest, children]

/-- The classes below a node, clustered alone, give the tree below that node, and at every threshold
the same partition as the cut from that node: the same modules in the same order, with the same
cohesion. -/
theorem subtree_clusters_alone [OrderedWeight W] {graph : CouplingGraph W} {whole : Dendrogram W}
    (clustered : graph.cluster? = some whole) (numeric : whole.Numeric (Affinity.ofGraph graph))
    {top : Nat} (bound : top < whole.nodes.size) :
    ∃ part, (graph.restrict (whole.classesAt top)).cluster? = some part ∧
      (∃ place, part.IsSubtreeAt whole top place) ∧
      ∀ threshold,
        part.partition (Affinity.ofGraph (graph.restrict (whole.classesAt top))) threshold =
          whole.partitionFrom (Affinity.ofGraph graph) top threshold ∧
        (Weight.isFinite threshold = true →
          ∃ partition, whole.partitionFrom (Affinity.ofGraph graph) top threshold =
            .ok partition) := by
  have grown := cluster_grown clustered
  have some_class := grown.size_pos bound
  obtain ⟨part, partClustered⟩ : ∃ part,
      (graph.restrict (whole.classesAt top)).cluster? = some part := by
    rw [← Option.isSome_iff_exists, Option.isSome_iff_ne_none, Ne,
      CouplingGraph.cluster_eq_none_iff, CouplingGraph.classes_restrict]
    omega
  obtain ⟨place, enumerates⟩ := grown.exists_enumeration bound
  have run : SubtreeRun graph whole part top place :=
    ⟨clustered, bound, partClustered, enumerates⟩
  have subtree := run.is_subtree numeric
  have partGrown := run.part_grown
  have inside : ∀ number < part.nodes.size, ∀ name ∈ part.classesAt number,
      name ∈ whole.classesAt top := by
    intro number numberBound name member
    rw [← subtree.classes_at numberBound] at member
    exact grown.mem_classes_of_below bound (run.below numberBound) member
  refine ⟨part, partClustered, ⟨place, subtree⟩, fun threshold => ⟨?_, fun finite => ?_⟩⟩
  · have rootBounded : ∀ id ∈ [part.root], id < part.nodes.size :=
      fun id member => List.mem_singleton.mp member ▸ part.root_lt
    have modules := subtree.cut_eq (Affinity.agree_on_restrict graph _) inside threshold rootBounded
    have sizes : part.sizeAt part.root = whole.sizeAt top := by
      rw [part.size_at_eq, whole.size_at_eq, partGrown.root_classes]
    rw [List.map_singleton, subtree.root] at modules
    rw [Dendrogram.partition, Dendrogram.partitionFrom, Dendrogram.partitionFrom, modules, sizes]
  · exact ⟨_, if_pos finite⟩

/-- Four classes in a row, the first two of which call each other most. -/
def callChain : CallGraph :=
  .ofPairs [("a.f", "b.f"), ("a.g", "b.f"), ("b.f", "c.f"), ("c.f", "d.f")]

theorem call_chain_clusters_alone : ∃ whole part : Dendrogram Float,
    (CouplingGraph.ofCalls .standard callChain).cluster? = some whole ∧
    ((CouplingGraph.ofCalls .standard callChain).restrict (whole.classesAt 5)).cluster? =
      some part ∧
    (∃ place, part.IsSubtreeAt whole 5 place) ∧
    ∃ partition,
      part.partition (Affinity.ofGraph
        ((CouplingGraph.ofCalls .standard callChain).restrict (whole.classesAt 5))) 0.25 =
        .ok partition := by
  have computed : (CouplingGraph.ofCalls .standard callChain : CouplingGraph Float).cluster?.any
      fun dendrogram => decide (5 < dendrogram.nodes.size) := by
    decide +kernel
  have finite : Weight.isFinite (0.25 : Float) = true := by decide +kernel
  obtain ⟨whole, clustered, bound⟩ := (Option.any_eq_true _ _).mp computed
  have numeric : whole.Numeric (Affinity.ofGraph (CouplingGraph.ofCalls .standard callChain)) :=
    fun _ _ _ _ _ _ _ =>
      (CouplingGraph.unsigned_between_of_calls (by decide +kernel) _ _).is_number
  obtain ⟨part, partClustered, subtree, cuts⟩ :=
    subtree_clusters_alone clustered numeric (of_decide_eq_true bound)
  obtain ⟨same, succeeds⟩ := cuts 0.25
  obtain ⟨partition, divided⟩ := succeeds finite
  exact ⟨whole, part, clustered, partClustered, subtree, partition, same.trans divided⟩

end Cohesion
