import Cohesion.Proofs.Clustering.Image
import Cohesion.Proofs.Clustering.Merges
import Cohesion.Proofs.Partition.Queue

/-!
# The image of a cut

A cut at a rescaled threshold accepts the images of the nodes that are accepted at the threshold, so
the two queues hold the same places all the time and the modules of one cut are the images of those
of the other.
-/

namespace Cohesion

variable {V W : Type} (rename : String → String) (rescale : V → W)

def Module.map (module : Module V) : Module W :=
  ⟨module.classes.image rename, module.cohesion.map rescale⟩

def Partition.map (partition : Partition V) : Partition W where
  threshold := rescale partition.threshold
  classCount := partition.classCount
  modules := partition.modules.map (Module.map rename rescale)
  diagnostic := partition.diagnostic

@[simp] theorem Partition.map_id (partition : Partition W) : partition.map id id = partition := by
  have same : ∀ module : Module W, module.map id id = module := by
    intro module
    simp [Module.map]
  simp [map, funext same]

def Dendrogram.ClassesIn (dendrogram : Dendrogram V) (kept : Set String) : Prop :=
  ∀ id, ∀ name ∈ dendrogram.classesAt id, name ∈ kept

theorem Dendrogram.Grown.classes_in {classes : NameSet} {dendrogram : Dendrogram V}
    (grown : dendrogram.Grown classes) : dendrogram.ClassesIn {name | name ∈ classes} := by
  intro id name inside
  by_cases bound : id < dendrogram.nodes.size
  · exact grown.mem_classes_of_node bound inside
  · rw [Arena.classesAt, Array.getElem?_eq_none (Nat.le_of_not_lt bound)] at inside
    exact absurd inside NameSet.not_mem_empty

section Carried

variable [Weight V] [Weight W] {rename rescale} {affinity : Affinity V} {other : Affinity W}
  {kept : Set String} (carries : affinity.Carries rename rescale other kept) (threshold : V)

include carries

theorem Affinity.Carries.module {node : Node V} (inside : ∀ name ∈ node.classes, name ∈ kept) :
    (node.map rename rescale).module? other (rescale threshold) =
      (node.module? affinity threshold).map (Module.map rename rescale) := by
  cases node with
  | leaf name => rfl
  | merged left right coupling classes =>
      have average := carries.average inside
      rw [Node.classes] at average
      simp only [Node.map, Node.module?, average]
      cases affinity.average? classes with
      | none => rfl
      | some average =>
          simp only [Option.map_some, carries.rescaling.exceeds, carries.rescaling.is_finite]
          split
          · split <;> rfl
          · rfl

theorem Affinity.Carries.cut {dendrogram : Dendrogram V} (within : dendrogram.ClassesIn kept)
    (waiting : List Nat) :
    (dendrogram.map rename rescale).cut other (rescale threshold) waiting =
      (dendrogram.cut affinity threshold waiting).map (Module.map rename rescale) := by
  induction waiting using dendrogram.queue_induction with
  | empty => rfl
  | absent id waiting missing rest =>
      rw [Arena.cut_cons, Arena.cut_cons, Dendrogram.nodes_map, Array.getElem?_map, missing]
      exact rest
  | stored id node waiting found rest children =>
      have inside := within id
      rw [Arena.classes_at_stored found] at inside
      have decided := carries.module threshold inside
      rw [Arena.cut_cons, Arena.cut_cons, Dendrogram.nodes_map, Array.getElem?_map, found]
      cases decision : node.module? affinity threshold with
      | none => simp [decision, decided, children]
      | some module => simp [decision, decided, rest]

theorem Affinity.Carries.partition_from {dendrogram : Dendrogram V}
    (within : dendrogram.ClassesIn kept) (start : Nat) {threshold : V}
    (finite : Weight.isFinite threshold = true) :
    ∃ partition, dendrogram.partitionFrom affinity start threshold = .ok partition ∧
      (dendrogram.map rename rescale).partitionFrom other start (rescale threshold) =
        .ok (partition.map rename rescale) := by
  have count : (dendrogram.map rename rescale).sizeAt start = dendrogram.sizeAt start := by
    rw [Dendrogram.size_at_eq, Dendrogram.size_at_eq,
      Arena.classes_at_map rename rescale (dendrogram.nodes_map rename rescale),
      NameSet.size_image (carries.order.mono (within start))]
  have imageFinite : Weight.isFinite (rescale threshold) = true := by
    rw [carries.rescaling.is_finite, finite]
  refine ⟨_, if_pos finite, ?_⟩
  simp [Dendrogram.partitionFrom, imageFinite, count, carries.cut threshold within, Partition.map]

end Carried

end Cohesion
