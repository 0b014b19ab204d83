import Cohesion.Proofs.Clustering.Cells
import Cohesion.Proofs.Clustering.Run
import Cohesion.Proofs.Names.Renaming
import Cohesion.Proofs.Weight.Rescaling

/-!
# The image of a clustering

Two graphs may have the same affinities between different classes, up to new names in the same order
and a change of scale. All rounds of their clusterings then take the same pair, so one dendrogram is
the image of the other: the same places, with the names replaced and the couplings rescaled.
Affinities of a class to itself are never read on the way.
-/

namespace Cohesion

variable {V W : Type} (rename : String → String) (rescale : V → W)

namespace Node

def map : Node V → Node W
  | leaf name => leaf (rename name)
  | merged left right coupling classes =>
      merged left right (rescale coupling) (classes.image rename)

@[simp] theorem children_map (node : Node V) :
    (node.map rename rescale).children = node.children := by
  cases node <;> rfl

@[simp] theorem classes_map (node : Node V) :
    (node.map rename rescale).classes = node.classes.image rename := by
  cases node <;> rfl

@[simp] theorem map_id (node : Node W) : node.map id id = node := by
  cases node <;> simp [map]

end Node

def Dendrogram.map (dendrogram : Dendrogram V) : Dendrogram W where
  nodes := dendrogram.nodes.map (Node.map rename rescale)
  children_lt id node stored child member := by
    rw [Array.getElem?_map, Option.map_eq_some_iff] at stored
    obtain ⟨old, found, rfl⟩ := stored
    rw [Node.children_map] at member
    exact dendrogram.children_lt id old found child member
  root := dendrogram.root
  root_lt := by
    rw [Array.size_map]
    exact dendrogram.root_lt

@[simp] theorem Dendrogram.nodes_map (dendrogram : Dendrogram V) :
    (dendrogram.map rename rescale).nodes = dendrogram.nodes.map (Node.map rename rescale) := rfl

@[simp] theorem Dendrogram.root_map (dendrogram : Dendrogram V) :
    (dendrogram.map rename rescale).root = dendrogram.root := rfl

theorem Dendrogram.eq_of_nodes {one other : Dendrogram W} (nodes : one.nodes = other.nodes)
    (root : one.root = other.root) : one = other := by
  obtain ⟨⟨_, _⟩, _, _⟩ := one
  obtain ⟨⟨_, _⟩, _, _⟩ := other
  simp only at nodes root
  subst nodes
  subst root
  rfl

@[simp] theorem Dendrogram.map_id (dendrogram : Dendrogram W) :
    dendrogram.map id id = dendrogram := by
  apply Dendrogram.eq_of_nodes
  · rw [nodes_map, funext Node.map_id, Array.map_id']
  · rfl

theorem Arena.classes_at_map {one : Arena V} {other : Arena W}
    (nodes : other.nodes = one.nodes.map (Node.map rename rescale)) (id : Nat) :
    other.classesAt id = (one.classesAt id).image rename := by
  rw [classesAt, classesAt, nodes, Array.getElem?_map]
  cases one.nodes[id]? with
  | none => rfl
  | some node => exact Node.classes_map rename rescale node

section Affinities

variable [Weight V] [Weight W]

/-- Affinities between different names that are kept are those between the new names, rescaled. -/
structure Affinity.Carries (affinity : Affinity V) (other : Affinity W) (kept : Set String) :
    Prop where
  order : StrictMonoOn rename kept
  rescaling : Rescaling rescale
  weights : ∀ first ∈ kept, ∀ second ∈ kept, first ≠ second →
    other.weight (rename first) (rename second) = rescale (affinity.weight first second)

variable {rename rescale}

/-- Sets without a common name only have affinities between different names. -/
theorem Affinity.Carries.between {affinity : Affinity V} {other : Affinity W} {kept : Set String}
    (carries : affinity.Carries rename rescale other kept) {rows columns : NameSet}
    (rowsKept : ∀ name ∈ rows, name ∈ kept) (columnsKept : ∀ name ∈ columns, name ∈ kept)
    (apart : ∀ name ∈ rows, name ∉ columns) :
    other.between (rows.image rename) (columns.image rename) =
      rescale (affinity.between rows columns) := by
  rw [between_eq_terms, between_eq_terms, ← carries.rescaling.accumulate]
  apply congrArg
  simp only [terms, NameSet.toList, NameSet.names_image (carries.order.mono rowsKept),
    NameSet.names_image (carries.order.mono columnsKept), List.flatMap_map, List.map_flatMap,
    List.map_map]
  apply List.flatMap_congr
  intro row isRow
  apply List.map_congr_left
  intro column isColumn
  apply carries.weights row (rowsKept row isRow) column (columnsKept column isColumn)
  intro same
  exact apart row isRow (same ▸ isColumn)

theorem pairs_map {Item Other : Type} (transform : Item → Other) (items : List Item) :
    pairs (items.map transform) =
      (pairs items).map fun pair => (transform pair.1, transform pair.2) := by
  induction items with
  | nil => rfl
  | cons head rest induction => simp [pairs, induction, Function.comp_def]

/-- A mean is taken over pairs of different names. -/
theorem Affinity.Carries.average {affinity : Affinity V} {other : Affinity W} {kept : Set String}
    (carries : affinity.Carries rename rescale other kept) {classes : NameSet}
    (inside : ∀ name ∈ classes, name ∈ kept) :
    other.average? (classes.image rename) = (affinity.average? classes).map rescale := by
  have order := carries.order.mono inside
  have terms : (pairs (classes.image rename).toList).map
        (fun pair => other.weight pair.1 pair.2) =
      ((pairs classes.toList).map fun pair => affinity.weight pair.1 pair.2).map rescale := by
    rw [NameSet.toList, NameSet.names_image order, pairs_map, List.map_map, List.map_map]
    apply List.map_congr_left
    intro pair listed
    have both := mem_of_mem_pairs listed
    have less : pair.1 < pair.2 := related_of_mem_pairs classes.ascending listed
    exact carries.weights _ (inside _ both.1) _ (inside _ both.2) less.ne
  have count : (pairs (classes.image rename).toList).length = (pairs classes.toList).length := by
    simpa using congrArg List.length terms
  rw [average?, average?, NameSet.size_image order]
  split
  · rfl
  · simp only [Option.map_some, carries.rescaling.div_count, ← carries.rescaling.accumulate,
      terms, count]

theorem first_strongest_rescaled {Item : Type} {strength : Item → V} {scaled : Item → W}
    (rescaling : Rescaling rescale) {items : List Item}
    (same : ∀ item ∈ items, scaled item = rescale (strength item)) :
    firstStrongest scaled items =
      (firstStrongest strength items).map fun best => (best.1, rescale best.2) := by
  have scanned : ∀ start : Option (Item × V),
      items.foldl (stronger scaled) (start.map fun best => (best.1, rescale best.2)) =
        (items.foldl (stronger strength) start).map fun best => (best.1, rescale best.2) := by
    induction items with
    | nil => simp
    | cons head rest induction =>
        intro start
        rw [List.forall_mem_cons] at same
        have step : stronger scaled (start.map fun best => (best.1, rescale best.2)) head =
            (stronger strength start head).map fun best => (best.1, rescale best.2) := by
          cases start with
          | none => simp [stronger, same.1]
          | some held =>
              simp only [stronger, Option.map_some, same.1, rescaling.exceeds]
              split <;> rfl
        rw [List.foldl_cons, List.foldl_cons, step, induction same.2]
  exact scanned none

end Affinities

structure Forest.IsImage (image : Forest W) (forest : Forest V) : Prop where
  nodes : image.nodes = forest.nodes.map (Node.map rename rescale)
  active : image.active = forest.active

theorem Forest.Canonical.mem_classes {classes : NameSet} {forest : Forest V}
    (canonical : forest.Canonical classes) {cluster : Cluster} (active : cluster ∈ forest.active) :
    ∀ name ∈ forest.classesAt cluster.node, name ∈ classes := by
  intro name inside
  rw [NameSet.mem_iff, canonical.named cluster active, List.mem_map] at inside
  obtain ⟨number, member, rfl⟩ := inside
  rw [NameSet.mem_iff, NameSet.name_at_eq (canonical.bounded active number member)]
  exact List.getElem_mem _

variable [Weight V] [Weight W]

theorem Forest.merge_strongest_none {matrix : AffinityMatrix V} {forest : Forest V}
    (found : strongestPair matrix forest.active = none) : forest.mergeStrongest matrix = forest := by
  unfold mergeStrongest
  split
  · rfl
  · next strongest =>
      rw [found] at strongest
      cases strongest

/-- The classes are the renamed ones, and so are their affinities, up to a change of scale. -/
structure CouplingGraph.Carries (graph : CouplingGraph V) (other : CouplingGraph W) : Prop where
  classes : other.classes = graph.classes.image rename
  affinity : (Affinity.ofGraph graph).Carries rename rescale (Affinity.ofGraph other)
    {name | name ∈ graph.classes}

namespace CouplingGraph.Carries

variable {rename rescale} {graph : CouplingGraph V} {other : CouplingGraph W}
  (carries : graph.Carries rename rescale other)

include carries

theorem image_of_classes : Forest.IsImage rename rescale (Forest.ofClasses other.classes)
    (Forest.ofClasses graph.classes : Forest V) := by
  have order := carries.affinity.order
  constructor
  · simp [Forest.ofClasses, NameSet.toList, carries.classes, NameSet.names_image order,
      Function.comp_def, Node.map]
  · simp [Forest.ofClasses, carries.classes, NameSet.size_image order]

section Round

variable {forest : Forest V} {image : Forest W} (canonical : forest.Canonical graph.classes)

include canonical

theorem between_active {first second : Cluster} (firstActive : first ∈ forest.active)
    (secondActive : second ∈ forest.active)
    (apart : ∀ number ∈ first.members, number ∉ second.members) :
    other.matrix.between first.members second.members =
      rescale (graph.matrix.between first.members second.members) := by
  have order := carries.affinity.order
  have firstBounded := canonical.bounded firstActive
  have secondBounded := canonical.bounded secondActive
  have firstKept := canonical.mem_classes firstActive
  have secondKept := canonical.mem_classes secondActive
  have bounded : ∀ {cluster : Cluster}, cluster ∈ forest.active →
      ∀ number ∈ cluster.members, number < other.classes.size := by
    intro cluster active number member
    rw [carries.classes, NameSet.size_image order]
    exact canonical.bounded active number member
  have named : ∀ {cluster : Cluster}, cluster ∈ forest.active →
      ((forest.classesAt cluster.node).image rename).names =
        cluster.members.map other.classes.nameAt := by
    intro cluster active
    rw [NameSet.names_image (order.mono (canonical.mem_classes active)), canonical.named cluster active,
      List.map_map]
    apply List.map_congr_left
    intro number member
    rw [carries.classes, NameSet.name_at_image order (canonical.bounded active number member)]
    rfl
  have reads := AffinityMatrix.reads_names_of_affinity (Affinity.ofGraph graph) firstBounded
    secondBounded (canonical.named first firstActive) (canonical.named second secondActive)
  have imageReads := AffinityMatrix.reads_names_of_affinity (Affinity.ofGraph other)
    (bounded firstActive) (bounded secondActive) (named firstActive) (named secondActive)
  rw [matrix, matrix, reads.between_eq, imageReads.between_eq]
  apply carries.affinity.between firstKept secondKept
  intro name inFirst inSecond
  rw [NameSet.mem_iff, canonical.named first firstActive, List.mem_map] at inFirst
  obtain ⟨number, member, rfl⟩ := inFirst
  rw [NameSet.mem_iff, canonical.named second secondActive,
    NameSet.mem_map_name_at secondBounded (firstBounded number member)] at inSecond
  exact apart number member inSecond

theorem strongest_pair : Forest.strongestPair other.matrix forest.active =
    (Forest.strongestPair graph.matrix forest.active).map fun best =>
      (best.1, rescale best.2) := by
  apply first_strongest_rescaled carries.affinity.rescaling
  intro pair listed
  have both := mem_of_mem_pairs listed
  have apart : forest.active.zipIdx.Pairwise fun one next =>
      ∀ number ∈ one.1.members, number ∉ next.1.members := by
    rw [← List.pairwise_map (f := Prod.fst) (R := fun one next : Cluster =>
      ∀ number ∈ one.members, number ∉ next.members), List.zipIdx_map_fst]
    exact canonical.disjoint
  exact carries.between_active canonical (List.fst_mem_of_mem_zipIdx both.1)
    (List.fst_mem_of_mem_zipIdx both.2) (related_of_mem_pairs apart listed)

/-- A round takes the same pair in both forests and joins it to corresponding nodes. -/
theorem image_of_round (isImage : Forest.IsImage rename rescale image forest) :
    Forest.IsImage rename rescale (image.mergeStrongest other.matrix)
      (forest.mergeStrongest graph.matrix) := by
  have strongest := carries.strongest_pair canonical
  cases found : Forest.strongestPair graph.matrix forest.active with
  | none =>
      rw [found, Option.map_none, ← isImage.active] at strongest
      rw [Forest.merge_strongest_none found, Forest.merge_strongest_none strongest]
      exact isImage
  | some best =>
      obtain ⟨⟨left, right⟩, coupling⟩ := best
      rw [found, Option.map_some, ← isImage.active] at strongest
      obtain ⟨_, _, joined⟩ := Forest.merge_strongest_eq found
      obtain ⟨_, _, imageJoined⟩ := Forest.merge_strongest_eq strongest
      have size : image.nodes.size = forest.nodes.size := by rw [isImage.nodes, Array.size_map]
      rw [joined, imageJoined]
      constructor
      · simp only [Forest.join, Arena.nodes_push, Array.map_push, Forest.classes_of_eq,
          Arena.classes_at_map rename rescale isImage.nodes, isImage.nodes, Node.map,
          NameSet.image_union]
      · simp only [Forest.join, isImage.active, size]

end Round

theorem image_of_forest {round : Nat} (bound : round ≤ graph.classes.size - 1) :
    Forest.IsImage rename rescale (other.forestAt round) (graph.forestAt round) := by
  induction round with
  | zero => exact carries.image_of_classes
  | succ round induction =>
      have canonical := (forest_at_canonical graph (Nat.le_of_succ_le bound)).1
      rw [forest_at_succ, forest_at_succ]
      exact carries.image_of_round canonical (induction (Nat.le_of_succ_le bound))

theorem cluster_image : other.cluster? = graph.cluster?.map (Dendrogram.map rename rescale) := by
  have size : other.classes.size = graph.classes.size := by
    rw [carries.classes, NameSet.size_image carries.affinity.order]
  cases clustered : graph.cluster? with
  | none =>
      rw [cluster_eq_none_iff] at clustered
      rw [Option.map_none, cluster_eq_none_iff, size, clustered]
  | some dendrogram =>
      have several : other.cluster? ≠ none := by
        rw [Ne, cluster_eq_none_iff, size, ← cluster_eq_none_iff, clustered]
        exact Option.some_ne_none dendrogram
      obtain ⟨imageDendrogram, imageClustered⟩ := Option.ne_none_iff_exists'.mp several
      obtain ⟨nodes, cluster, active, root⟩ := cluster_eq_some clustered
      obtain ⟨imageNodes, imageCluster, imageActive, imageRoot⟩ := cluster_eq_some imageClustered
      have isImage : Forest.IsImage rename rescale other.lastForest graph.lastForest := by
        rw [lastForest, lastForest, size]
        exact carries.image_of_forest (Nat.le_refl _)
      rw [imageClustered, Option.map_some, Option.some.injEq]
      apply Dendrogram.eq_of_nodes
      · rw [Dendrogram.nodes_map, nodes, imageNodes, isImage.nodes]
      · have same := isImage.active
        rw [active, imageActive, List.singleton_inj] at same
        rw [Dendrogram.root_map, ← root, ← imageRoot, same]

end CouplingGraph.Carries

end Cohesion
