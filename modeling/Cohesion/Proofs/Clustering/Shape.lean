import Mathlib.Logic.ExistsUnique
import Cohesion.Proofs.Clustering.Run
import Cohesion.Proofs.Names.ByteOrder

/-!
# The shape of a dendrogram

A clustered graph gives a binary tree: the classes are its leaves in name order, every other node
joins two nodes that had no parent before it, and the last node is the root. The classes kept with a
node are those of the leaves below it.
-/

namespace Cohesion

variable {W : Type}

/-- A node that joins two others which had no parent before it. -/
structure Arena.Joint (arena : Arena W) (id left right : Nat) (coupling : W) : Prop where
  stored : arena.nodes[id]? =
    some (.merged left right coupling ((arena.classesAt left).union (arena.classesAt right)))
  left_active : arena.ActiveBefore id left
  right_active : arena.ActiveBefore id right
  disjoint : ∀ name ∈ arena.classesAt left, name ∉ arena.classesAt right
  leads : Leads (arena.classesAt left).names (arena.classesAt right).names

namespace Dendrogram

/-- Leaves for all classes in name order, then joints, the last of which is the root. -/
structure Grown (classes : NameSet) (dendrogram : Dendrogram W) : Prop where
  count : dendrogram.nodes.size + 1 = 2 * classes.size
  leaf_at : ∀ number < classes.size,
    dendrogram.nodes[number]? = some (.leaf (classes.nameAt number))
  joint_at : ∀ id, classes.size ≤ id → id < dendrogram.nodes.size →
    ∃ left right coupling, dendrogram.Joint id left right coupling
  last_active : ∀ id, dendrogram.ActiveBefore dendrogram.nodes.size id ↔ id = dendrogram.root
  root_classes : dendrogram.classesAt dendrogram.root = classes

end Dendrogram

section Clustered

variable [Weight W] {graph : CouplingGraph W}

theorem Origin.joint {arena : Arena W} {forest : Forest W} {before middle after : List Cluster}
    {left right : Cluster} {coupling : W}
    (origin : Origin graph arena forest before left middle right after coupling) :
    arena.Joint forest.nodes.size left.node right.node coupling where
  stored := origin.stored
  left_active := (origin.active_before left.node).mpr ⟨left, origin.left_active, rfl⟩
  right_active := (origin.active_before right.node).mpr ⟨right, origin.right_active, rfl⟩
  disjoint := origin.disjoint_of_members origin.left_active origin.right_active
    (origin.related origin.canonical.disjoint).1
  leads := origin.leads_of_members origin.left_active origin.right_active
    (origin.leads origin.canonical)

theorem cluster_grown {dendrogram : Dendrogram W}
    (clustered : graph.cluster? = some dendrogram) : dendrogram.Grown graph.classes := by
  obtain ⟨nodes, cluster, active, root⟩ := CouplingGraph.cluster_eq_some clustered
  have canonical := CouplingGraph.last_forest_canonical graph
  have count := canonical.count
  rw [active, List.length_singleton] at count
  constructor
  case count => rw [nodes, count]
  case leaf_at =>
    rw [nodes]
    exact canonical.leaf_at
  case joint_at =>
    intro id behindLeaves bound
    obtain ⟨forest, _, left, _, right, _, coupling, rfl, origin⟩ :=
      origin_of_merged clustered behindLeaves bound
    exact ⟨left.node, right.node, coupling, origin.joint⟩
  case last_active =>
    intro id
    rw [nodes, canonical.parentless, active, List.map_singleton, root, List.mem_singleton]
  case root_classes =>
    have covered := canonical.covered
    have named := canonical.named cluster (by rw [active]; exact List.mem_singleton_self _)
    rw [active, List.flatMap_singleton] at covered
    have names := covered.map graph.classes.nameAt
    rw [← named, NameSet.map_name_at_range] at names
    rw [nodes, ← root]
    ext name
    exact names.mem_iff

end Clustered

namespace Dendrogram.Grown

variable {classes : NameSet} {dendrogram : Dendrogram W}

theorem root_last (grown : dendrogram.Grown classes) :
    dendrogram.root + 1 = dendrogram.nodes.size := by
  have bound := dendrogram.root_lt
  have last : dendrogram.ActiveBefore dendrogram.nodes.size (dendrogram.nodes.size - 1) := by
    refine ⟨by omega, fun parent before isChild => ?_⟩
    have below := isChild.lt
    omega
  rw [grown.last_active] at last
  omega

theorem node_cases (grown : dendrogram.Grown classes) {id : Nat}
    (bound : id < dendrogram.nodes.size) :
    (id < classes.size ∧ dendrogram.nodes[id]? = some (.leaf (classes.nameAt id))) ∨
      ∃ left right coupling, dendrogram.Joint id left right coupling := by
  rcases Nat.lt_or_ge id classes.size with isLeaf | behindLeaves
  · exact .inl ⟨isLeaf, grown.leaf_at id isLeaf⟩
  · exact .inr (grown.joint_at id behindLeaves bound)

theorem leaf_cases (grown : dendrogram.Grown classes) {id : Nat} {name : String}
    (stored : dendrogram.nodes[id]? = some (.leaf name)) :
    id < classes.size ∧ name = classes.nameAt id := by
  rcases grown.node_cases (Arena.lt_of_stored stored) with ⟨isLeaf, leaf⟩ | ⟨_, _, _, joint⟩
  · rw [leaf, Option.some.injEq, Node.leaf.injEq] at stored
    exact ⟨isLeaf, stored.symm⟩
  · rw [joint.stored] at stored
    cases stored

theorem behind_leaves (grown : dendrogram.Grown classes) {id left right : Nat} {coupling : W}
    {joined : NameSet}
    (stored : dendrogram.nodes[id]? = some (.merged left right coupling joined)) :
    classes.size ≤ id := by
  by_contra isLeaf
  rw [grown.leaf_at id (Nat.lt_of_not_le isLeaf)] at stored
  cases stored

theorem joint_of_stored (grown : dendrogram.Grown classes) {id left right : Nat} {coupling : W}
    {joined : NameSet}
    (stored : dendrogram.nodes[id]? = some (.merged left right coupling joined)) :
    dendrogram.Joint id left right coupling := by
  rcases grown.joint_at id (grown.behind_leaves stored) (Arena.lt_of_stored stored) with
    ⟨_, _, _, joint⟩
  have same := joint.stored
  rw [stored, Option.some.injEq, Node.merged.injEq] at same
  rcases same with ⟨rfl, rfl, rfl, _⟩
  exact joint

theorem active_of_is_child (grown : dendrogram.Grown classes) {child parent : Nat}
    (isChild : dendrogram.IsChild child parent) : dendrogram.ActiveBefore parent child := by
  rcases grown.node_cases isChild.parent_lt with ⟨_, leaf⟩ | ⟨left, right, coupling, joint⟩
  · exact absurd isChild (Arena.not_is_child_leaf leaf)
  · rcases (Arena.is_child_merged joint.stored).mp isChild with rfl | rfl
    · exact joint.left_active
    · exact joint.right_active

theorem parent_unique (grown : dendrogram.Grown classes) {child first second : Nat}
    (firstParent : dendrogram.IsChild child first)
    (secondParent : dendrogram.IsChild child second) : first = second := by
  rcases Nat.lt_trichotomy first second with less | same | greater
  · exact absurd firstParent ((grown.active_of_is_child secondParent).2 first less)
  · exact same
  · exact absurd secondParent ((grown.active_of_is_child firstParent).2 second greater)

theorem exists_parent (grown : dendrogram.Grown classes) {id : Nat}
    (bound : id < dendrogram.nodes.size) (notRoot : id ≠ dendrogram.root) :
    ∃ parent, dendrogram.IsChild id parent := by
  by_contra orphan
  refine notRoot ((grown.last_active id).mp ⟨bound, fun parent _ isChild => ?_⟩)
  exact orphan ⟨parent, isChild⟩

theorem mem_classes_at (grown : dendrogram.Grown classes) {id : Nat}
    (bound : id < dendrogram.nodes.size) {name : String} :
    name ∈ dendrogram.classesAt id ↔
      ∃ leaf, dendrogram.Below id leaf ∧ dendrogram.nodes[leaf]? = some (.leaf name) := by
  induction id using Nat.strongRecOn with
  | ind id induction =>
      rcases grown.node_cases bound with ⟨_, leaf⟩ | ⟨left, right, coupling, joint⟩
      · rw [Arena.classes_at_stored leaf, Node.classes, NameSet.mem_singleton]
        simp only [Arena.below_leaf leaf, exists_eq_left, leaf, Option.some.injEq, Node.leaf.injEq]
        exact eq_comm
      · have leftBelow := joint.left_active.1
        have rightBelow := joint.right_active.1
        rw [Arena.classes_at_stored joint.stored, Node.classes, NameSet.mem_union,
          induction left leftBelow (Nat.lt_trans leftBelow bound),
          induction right rightBelow (Nat.lt_trans rightBelow bound)]
        simp only [Arena.below_merged joint.stored, or_and_right, exists_or, exists_eq_left,
          joint.stored, Option.some.injEq, reduceCtorEq, false_or]

end Dendrogram.Grown

/-- A binary tree over all classes. Its leaves come first, in byte order; every other node joins two
earlier ones with no class in common, the one with the smaller first class on the left, and keeps
the classes of both; every node but the last one has one parent, and the last one is the root. -/
structure Dendrogram.WellFormed (classes : NameSet) (dendrogram : Dendrogram W) : Prop where
  node_count : dendrogram.nodeCount = 2 * classes.size - 1
  leaves : ∀ (number : Nat) (name : String), classes.toList[number]? = some name →
    dendrogram.nodes[number]? = some (.leaf name)
  byte_order : ∀ (first second : Nat) (name other : String), first < second →
    dendrogram.nodes[first]? = some (.leaf name) → dendrogram.nodes[second]? = some (.leaf other) →
    nameBytes name < nameBytes other
  merges : ∀ id, classes.size ≤ id → id < dendrogram.nodeCount → ∃ left right coupling joined,
    dendrogram.nodes[id]? = some (.merged left right coupling joined) ∧ left < id ∧ right < id ∧
      (∀ name, ¬(name ∈ dendrogram.classesAt left ∧ name ∈ dendrogram.classesAt right)) ∧
      (∀ name, name ∈ joined ↔
        name ∈ dendrogram.classesAt left ∨ name ∈ dendrogram.classesAt right) ∧
      Leads (dendrogram.classesAt left).toList (dendrogram.classesAt right).toList
  reached : ∀ id < dendrogram.nodeCount, ∀ name, name ∈ dendrogram.classesAt id ↔
    ∃ leaf, dendrogram.Below id leaf ∧ dendrogram.nodes[leaf]? = some (.leaf name)
  parent : ∀ id, id + 1 < dendrogram.nodeCount → ∃! parent, dendrogram.IsChild id parent
  root_last : dendrogram.root + 1 = dendrogram.nodeCount
  root_classes : dendrogram.classes = classes

/-- Clustering gives no dendrogram only for a graph without classes, and a well-formed one over all
classes otherwise, whatever the weights are. -/
theorem cluster_well_formed [Weight W] (graph : CouplingGraph W) :
    (graph.cluster? = none ↔ graph.classes = ∅) ∧
      ∀ dendrogram, graph.cluster? = some dendrogram → dendrogram.WellFormed graph.classes := by
  refine ⟨?_, fun dendrogram clustered => ?_⟩
  · rw [CouplingGraph.cluster_eq_none_iff, NameSet.size_eq_zero_iff]
    exact ⟨fun none_named => NameSet.eq_of_names none_named, fun empty => by rw [empty]; rfl⟩
  have grown := cluster_grown clustered
  constructor
  case node_count =>
    have count := grown.count
    rw [Dendrogram.nodeCount]
    omega
  case leaves =>
    intro number name listed
    have bound : number < graph.classes.size := (List.getElem?_eq_some_iff.mp listed).choose
    rw [grown.leaf_at number bound]
    rw [NameSet.toList, NameSet.names_get? bound, Option.some.injEq] at listed
    rw [listed]
  case byte_order =>
    intro first second name other less firstStored secondStored
    obtain ⟨_, rfl⟩ := grown.leaf_cases firstStored
    obtain ⟨bound, rfl⟩ := grown.leaf_cases secondStored
    exact lt_iff_name_bytes.mp (NameSet.name_at_lt less bound)
  case merges =>
    intro id behindLeaves bound
    obtain ⟨left, right, coupling, joint⟩ := grown.joint_at id behindLeaves bound
    refine ⟨left, right, coupling, _, joint.stored, joint.left_active.1, joint.right_active.1, ?_,
      fun name => NameSet.mem_union, joint.leads⟩
    exact fun name shared => joint.disjoint name shared.1 shared.2
  case reached => exact fun id bound name => grown.mem_classes_at bound
  case parent =>
    intro id bound
    have notRoot : id ≠ dendrogram.root := by
      have last := grown.root_last
      rw [Dendrogram.nodeCount] at bound
      omega
    obtain ⟨parent, isChild⟩ := grown.exists_parent (Nat.lt_of_succ_lt bound) notRoot
    exact ⟨parent, isChild, fun other otherParent => grown.parent_unique otherParent isChild⟩
  case root_last => exact grown.root_last
  case root_classes =>
    rw [← grown.root_classes, Dendrogram.classes, Dendrogram.rootNode,
      Arena.classes_at_stored (Array.getElem?_eq_getElem dendrogram.root_lt)]

/-- Three classes with a loop, where one weight is not a number. -/
def partlyUnknown : CouplingGraph Float :=
  .ofEdges [⟨"a", "b", 0.0 / 0.0⟩, ⟨"b", "c", 1.0⟩, ⟨"c", "c", 2.0⟩]

theorem partly_unknown_well_formed : ∃ dendrogram,
    partlyUnknown.cluster? = some dendrogram ∧ dendrogram.WellFormed partlyUnknown.classes := by
  have computed : partlyUnknown.cluster?.isSome = true := by decide +kernel
  obtain ⟨dendrogram, clustered⟩ := Option.isSome_iff_exists.mp computed
  exact ⟨dendrogram, clustered, (cluster_well_formed partlyUnknown).2 dendrogram clustered⟩

end Cohesion
