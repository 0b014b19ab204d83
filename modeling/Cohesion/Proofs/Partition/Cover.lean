import Mathlib.Data.List.Nodup
import Cohesion.Proofs.Partition.Queue

/-!
# Every cut is a partition

The modules of a cut hold the classes below its start node, each class in exactly one of them, for
every affinity and every threshold, and every module holds the classes of one node.
-/

namespace Cohesion

variable {W : Type}

section Modules

variable [Weight W] {classes : NameSet} {dendrogram : Dendrogram W}

theorem Arena.accepted_of_mem_cut {arena : Arena W} {affinity : Affinity W} {threshold : W}
    {waiting : List Nat} {module : Module W}
    (member : module ∈ arena.cut affinity threshold waiting) :
    ∃ top ∈ waiting, ∃ id node, arena.Below top id ∧ arena.nodes[id]? = some node ∧
      node.module? affinity threshold = some module := by
  revert member
  induction waiting using arena.queue_induction with
  | empty => exact fun member => absurd member List.not_mem_nil
  | absent id waiting missing rest =>
      intro member
      rw [cut_cons, missing] at member
      obtain ⟨top, topMember, found⟩ := rest member
      exact ⟨top, List.mem_cons_of_mem _ topMember, found⟩
  | stored id node waiting stored rest children =>
      intro member
      cases decision : node.module? affinity threshold with
      | some accepted =>
          rw [cut_of_accepted stored decision, List.mem_cons] at member
          rcases member with rfl | later
          · exact ⟨id, List.mem_cons_self, id, node, .top, stored, decision⟩
          · obtain ⟨top, topMember, found⟩ := rest later
            exact ⟨top, List.mem_cons_of_mem _ topMember, found⟩
      | none =>
          rw [cut_of_refused stored decision] at member
          obtain ⟨top, topMember, place, found, below, accepted⟩ := children member
          rcases List.mem_append.mp topMember with earlier | isChild
          · exact ⟨top, List.mem_cons_of_mem _ earlier, place, found, below, accepted⟩
          · exact ⟨id, List.mem_cons_self, place, found,
              (Below.child .top ⟨node, stored, isChild⟩).trans below, accepted⟩

theorem Arena.mem_cut {arena : Arena W} {affinity : Affinity W} {threshold : W}
    {waiting : List Nat} {module : Module W}
    (member : module ∈ arena.cut affinity threshold waiting) :
    ∃ top ∈ waiting, ∃ id < arena.nodes.size, arena.Below top id ∧
      module.classes = arena.classesAt id := by
  obtain ⟨top, topMember, id, node, below, stored, accepted⟩ := accepted_of_mem_cut member
  refine ⟨top, topMember, id, lt_of_stored stored, below, ?_⟩
  rw [Node.module_classes accepted, classes_at_stored stored]

/-- The modules of a queue list the classes of the waiting nodes. -/
theorem Dendrogram.Grown.cut_names_perm (grown : dendrogram.Grown classes)
    (affinity : Affinity W) (threshold : W) {waiting : List Nat}
    (bounded : ∀ id ∈ waiting, id < dendrogram.nodes.size) :
    ((dendrogram.cut affinity threshold waiting).flatMap fun module => module.classes.names).Perm
      (waiting.flatMap fun id => (dendrogram.classesAt id).names) := by
  apply dendrogram.known_queue_induction ?_ ?_ bounded
  · exact .refl _
  · intro id node waiting stored rest children
    cases decision : node.module? affinity threshold with
    | some module =>
        have named := Node.module_classes decision
        rw [Arena.cut_of_accepted stored decision, List.flatMap_cons, List.flatMap_cons, named,
          Arena.classes_at_stored stored]
        exact rest.append_left _
    | none =>
        obtain ⟨left, right, coupling, joint, pair⟩ := grown.joint_of_refused stored decision
        have found := children
        rw [pair, List.flatMap_append, List.flatMap_cons, List.flatMap_singleton] at found
        have regrouped := (joint.names_perm.symm.append_left
          (waiting.flatMap fun id => (dendrogram.classesAt id).names)).trans List.perm_append_comm
        rw [Arena.cut_of_refused stored decision, List.flatMap_cons, pair]
        exact found.trans regrouped

end Modules

section Lookup

variable {partition : Partition W}

/-- When no class is in two modules, a class is looked up in the one module that holds it. -/
theorem Partition.module_of_eq_some_iff
    (disjoint : partition.modules.Pairwise fun first second =>
      ∀ name ∈ first.classes, name ∉ second.classes) {name : String} {module : Module W} :
    partition.moduleOf? name = some module ↔
      module ∈ partition.modules ∧ name ∈ module.classes := by
  rw [moduleOf?]
  constructor
  · intro found
    have holds := List.find?_some found
    exact ⟨List.mem_of_find?_eq_some found, of_decide_eq_true holds⟩
  · rintro ⟨member, inside⟩
    obtain ⟨before, after, split⟩ := List.append_of_mem member
    rw [split] at disjoint
    have notBefore : before.find? (fun module => decide (name ∈ module.classes)) = none := by
      rw [List.find?_eq_none]
      intro other earlier found
      have apart := (List.pairwise_append.mp disjoint).2.2 other earlier module List.mem_cons_self
      exact apart name (of_decide_eq_true found) inside
    rw [split, List.find?_append, notBefore, Option.none_or, List.find?_cons, decide_eq_true inside]

theorem Partition.module_of_eq_none_iff {name : String} :
    partition.moduleOf? name = none ↔ ∀ module ∈ partition.modules, name ∉ module.classes := by
  rw [moduleOf?, List.find?_eq_none]
  simp only [decide_eq_true_eq]

end Lookup

/-- The modules of a partition are the classes below a start node, divided along the tree. The
queue runs empty within as many turns as there are nodes at or below the start node. -/
structure Dendrogram.DividedFrom [Weight W] (dendrogram : Dendrogram W) (affinity : Affinity W)
    (start : Nat) (threshold : W) (partition : Partition W) : Prop where
  finished : (dendrogram.turn affinity threshold)^[2 * (dendrogram.classesAt start).size - 1]
    ⟨[start], []⟩ = ⟨[], partition.modules⟩
  nonempty : ∀ module ∈ partition.modules, module.classes ≠ ∅
  disjoint : partition.modules.Pairwise fun first second =>
    ∀ name ∈ first.classes, name ∉ second.classes
  union : ∀ name, name ∈ dendrogram.classesAt start ↔
    ∃ module ∈ partition.modules, name ∈ module.classes
  below : ∀ module ∈ partition.modules, ∃ id, dendrogram.Below start id ∧
    module.classes = dendrogram.classesAt id
  class_count : partition.classCount = (dendrogram.classesAt start).size
  module_of_some : ∀ name module, partition.moduleOf? name = some module ↔
    module ∈ partition.modules ∧ name ∈ module.classes
  module_of_none : ∀ name, partition.moduleOf? name = none ↔
    name ∉ dendrogram.classesAt start

theorem Dendrogram.Grown.divided_from [Weight W] {classes : NameSet} {dendrogram : Dendrogram W}
    (grown : dendrogram.Grown classes) (affinity : Affinity W) {start : Nat}
    (inside : start < dendrogram.nodes.size) (threshold : W) {partition : Partition W}
    (modules : partition.modules = dendrogram.cut affinity threshold [start])
    (counted : partition.classCount = dendrogram.sizeAt start) :
    dendrogram.DividedFrom affinity start threshold partition := by
  have bounded : ∀ id ∈ [start], id < dendrogram.nodes.size :=
    fun id member => List.mem_singleton.mp member ▸ inside
  have listed := grown.cut_names_perm affinity threshold bounded
  rw [List.flatMap_singleton, ← modules] at listed
  have below : ∀ module ∈ partition.modules, ∃ id < dendrogram.nodes.size,
      dendrogram.Below start id ∧ module.classes = dendrogram.classesAt id := by
    intro module member
    rw [modules] at member
    obtain ⟨top, isStart, found⟩ := Arena.mem_cut member
    rwa [List.mem_singleton.mp isStart] at found
  have disjoint : partition.modules.Pairwise fun first second =>
      ∀ name ∈ first.classes, name ∉ second.classes := by
    have distinct := listed.nodup_iff.mpr (NameSet.names_nodup _)
    exact (List.nodup_flatMap.mp distinct).2.imp fun apart name first second =>
      apart first second
  have union : ∀ name, name ∈ dendrogram.classesAt start ↔
      ∃ module ∈ partition.modules, name ∈ module.classes :=
    fun name => listed.mem_iff.symm.trans List.mem_flatMap
  constructor
  case finished =>
    rw [grown.turns_finish bounded (Nat.le_of_eq (by simp)), modules]
    rfl
  case nonempty =>
    intro module member empty
    obtain ⟨id, bound, _, same⟩ := below module member
    have positive := grown.size_pos bound
    rw [← same, empty] at positive
    exact Nat.lt_irrefl 0 positive
  case disjoint => exact disjoint
  case union => exact union
  case below =>
    intro module member
    obtain ⟨id, _, found⟩ := below module member
    exact ⟨id, found⟩
  case class_count => rw [counted, dendrogram.size_at_eq]
  case module_of_some => exact fun name module => Partition.module_of_eq_some_iff disjoint
  case module_of_none =>
    intro name
    rw [Partition.module_of_eq_none_iff, union]
    simp only [not_exists, not_and]

/-- A finite threshold always cuts what is below a node into a partition of its classes, whatever
graph the affinities come from. -/
theorem cut_divides_classes [Weight W] {graph : CouplingGraph W} {dendrogram : Dendrogram W}
    (clustered : graph.cluster? = some dendrogram) (affinity : Affinity W) {start : Nat}
    (inside : start < dendrogram.nodes.size) {threshold : W}
    (finite : Weight.isFinite threshold = true) :
    ∃ partition, dendrogram.partitionFrom affinity start threshold = .ok partition ∧
      dendrogram.DividedFrom affinity start threshold partition := by
  have grown := cluster_grown clustered
  exact ⟨_, if_pos finite, grown.divided_from affinity inside threshold rfl rfl⟩

theorem partly_unknown_is_divided : ∃ dendrogram partition,
    partlyUnknown.cluster? = some dendrogram ∧
    dendrogram.partitionFrom (Affinity.ofGraph partlyUnknown) 4 0.5 = .ok partition ∧
    dendrogram.DividedFrom (Affinity.ofGraph partlyUnknown) 4 0.5 partition := by
  have computed : partlyUnknown.cluster?.any fun dendrogram =>
      decide (4 < dendrogram.nodes.size) := by
    decide +kernel
  have finite : Weight.isFinite (0.5 : Float) = true := by decide +kernel
  obtain ⟨dendrogram, clustered, inside⟩ := (Option.any_eq_true _ _).mp computed
  obtain ⟨partition, found, divided⟩ := cut_divides_classes clustered
    (Affinity.ofGraph partlyUnknown) (of_decide_eq_true inside) finite
  exact ⟨dendrogram, partition, clustered, found, divided⟩

end Cohesion
