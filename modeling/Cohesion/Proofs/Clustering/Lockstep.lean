import Cohesion.Proofs.Clustering.Greedy

/-!
# Two clusterings in step

Two clusterings of the same classes, with weights of different kinds, may join the same clusters in
every round. They do as long as the second one finds the choice of the first one strongest, too: not
exceeded by any other active pair, and exceeding those that the first choice exceeds.
-/

namespace Cohesion

variable {V W : Type}

namespace Node

def withoutCoupling : Node W → Node Unit
  | leaf name => leaf name
  | merged left right _ classes => merged left right () classes

def pair? : Node W → Option (Nat × Nat)
  | leaf _ => none
  | merged left right _ _ => some (left, right)

@[simp] theorem classes_without_coupling (node : Node W) :
    node.withoutCoupling.classes = node.classes := by
  cases node <;> rfl

@[simp] theorem pair_without_coupling (node : Node W) :
    node.withoutCoupling.pair? = node.pair? := by
  cases node <;> rfl

end Node

def Arena.SameShape (one : Arena V) (other : Arena W) : Prop :=
  one.nodes.map Node.withoutCoupling = other.nodes.map Node.withoutCoupling

namespace Arena.SameShape

variable {one : Arena V} {other : Arena W} (same : one.SameShape other)

include same

theorem size_eq : one.nodes.size = other.nodes.size := by
  have sizes := congrArg Array.size same
  rwa [Array.size_map, Array.size_map] at sizes

theorem classes_at (id : Nat) : one.classesAt id = other.classesAt id := by
  have looked := congrArg (fun nodes => (nodes[id]?.map Node.classes).getD ∅) same
  simpa [Arena.classesAt, Array.getElem?_map, Option.map_map, Function.comp_def] using looked

end Arena.SameShape

/-- The pairs of class sets that a dendrogram joins, left and right, in the order of the merges. -/
def Dendrogram.mergeSequence (dendrogram : Dendrogram W) : List (NameSet × NameSet) :=
  (dendrogram.nodes.toList.filterMap Node.pair?).map fun pair =>
    (dendrogram.classesAt pair.1, dendrogram.classesAt pair.2)

theorem Arena.SameShape.merge_sequence {one : Dendrogram V} {other : Dendrogram W}
    (same : one.SameShape other.toArena) : one.mergeSequence = other.mergeSequence := by
  have pairs : one.nodes.toList.filterMap Node.pair? = other.nodes.toList.filterMap Node.pair? := by
    have nodes := congrArg (fun nodes => nodes.toList.filterMap Node.pair?) same
    simpa [List.filterMap_map, Function.comp_def] using nodes
  rw [Dendrogram.mergeSequence, Dendrogram.mergeSequence, pairs]
  apply List.map_congr_left
  intro pair _
  rw [same.classes_at, same.classes_at]

section Scanning

variable {Item : Type} [Weight W]

/-- An item that exceeds everything before it and is not exceeded afterwards is the first strongest
one. -/
theorem first_strongest_of_split {strength : Item → W} {before after : List Item} {best : Item}
    (earlier : ∀ item ∈ before, Weight.exceeds (strength best) (strength item) = true)
    (later : ∀ item ∈ after, Weight.exceeds (strength item) (strength best) = false) :
    firstStrongest strength (before ++ best :: after) = some (best, strength best) := by
  have taken : stronger strength (before.foldl (stronger strength) none) best =
      some (best, strength best) := by
    cases scanned : before.foldl (stronger strength) none with
    | none => rfl
    | some held =>
        obtain ⟨member, value⟩ := (foldl_stronger_mem scanned).resolve_left nofun
        rw [stronger, value, earlier held.1 member]
        rfl
  have kept : after.foldl (stronger strength) (some (best, strength best)) =
      some (best, strength best) := by
    induction after with
    | nil => rfl
    | cons item rest induction =>
        rw [List.forall_mem_cons] at later
        rw [List.foldl_cons, stronger, later.1]
        exact induction later.2
  rw [firstStrongest, List.foldl_append, List.foldl_cons, taken, kept]

end Scanning

namespace Forest

/-- Two forests with the same clusters, made of the same nodes up to the couplings. -/
structure InStep (one : Forest V) (other : Forest W) : Prop where
  shape : one.SameShape other.toArena
  active : one.active = other.active

theorem in_step_of_classes (classes : NameSet) :
    (ofClasses classes : Forest V).InStep (ofClasses classes : Forest W) := by
  constructor
  · simp [Arena.SameShape, ofClasses, Function.comp_def, Node.withoutCoupling]
  · rfl

variable [Weight V] [Weight W]

theorem InStep.merge_strongest {one : Forest V} {other : Forest W} (inStep : one.InStep other)
    {matrix : AffinityMatrix V} {otherMatrix : AffinityMatrix W} {left right : Cluster × Nat}
    {coupling : V} {otherCoupling : W}
    (found : strongestPair matrix one.active = some ((left, right), coupling))
    (otherFound : strongestPair otherMatrix other.active = some ((left, right), otherCoupling)) :
    (one.mergeStrongest matrix).InStep (other.mergeStrongest otherMatrix) := by
  obtain ⟨_, _, joined⟩ := merge_strongest_eq found
  obtain ⟨_, _, otherJoined⟩ := merge_strongest_eq otherFound
  rw [joined, otherJoined]
  constructor
  · simp only [Arena.SameShape, join, Arena.nodes_push, Array.map_push, classes_of_eq,
      inStep.shape.classes_at]
    rw [inStep.shape]
    rfl
  · simp only [join, inStep.active, inStep.shape.size_eq]

end Forest

section Choices

def Arena.OtherPairAt (arena : Arena W) (id left right first second : Nat) : Prop :=
  arena.ActiveBefore id first ∧ arena.ActiveBefore id second ∧ arena.Smaller first second ∧
    (first, second) ≠ (left, right)

instance (arena : Arena W) (id left right first second : Nat) :
    Decidable (arena.OtherPairAt id left right first second) :=
  inferInstanceAs (Decidable (_ ∧ _))

/-- Each merge satisfies something that is said about the joined pair and any other active pair. -/
def Dendrogram.EachChoice (dendrogram : Dendrogram W)
    (compared : Nat → Nat → Nat → Nat → Prop) : Prop :=
  ∀ id left right coupling joined,
    dendrogram.nodes[id]? = some (.merged left right coupling joined) →
    ∀ first second, dendrogram.OtherPairAt id left right first second →
      compared left right first second

/-- Only nodes before a merge compete with the pair that it joins. -/
theorem Dendrogram.each_choice_iff {dendrogram : Dendrogram W}
    {compared : Nat → Nat → Nat → Nat → Prop} : dendrogram.EachChoice compared ↔
      ∀ id < dendrogram.nodes.size, ∀ pair ∈ dendrogram.nodes[id]?.bind Node.pair?,
        ∀ first < id, ∀ second < id, dendrogram.OtherPairAt id pair.1 pair.2 first second →
          compared pair.1 pair.2 first second := by
  constructor
  · intro each id _ pair found first _ second _ otherPair
    obtain ⟨node, stored, joins⟩ := Option.bind_eq_some_iff.mp found
    cases node with
    | leaf name => cases joins
    | merged left right coupling joined =>
        cases joins
        exact each id left right coupling joined stored first second otherPair
  · intro each id left right coupling joined stored first second otherPair
    apply each id (Arena.lt_of_stored stored) (left, right) _ first otherPair.1.1 second
      otherPair.2.1.1 otherPair
    rw [stored]
    rfl

instance (dendrogram : Dendrogram W) (compared : Nat → Nat → Nat → Nat → Prop)
    [∀ left right first second, Decidable (compared left right first second)] :
    Decidable (dendrogram.EachChoice compared) :=
  decidable_of_iff' _ Dendrogram.each_choice_iff

end Choices

section Runs

variable [Weight V] [Weight W]

/-- With the second weights, too, the choice of a merge is not exceeded by another active pair, and
it exceeds the pairs that it exceeds with the first ones. -/
structure Arena.KeepsChoice (arena : Arena V) (affinity : Affinity V) (other : Affinity W)
    (left right first second : Nat) : Prop where
  exceeds : Weight.exceeds (arena.couplingOf affinity left right)
      (arena.couplingOf affinity first second) = true →
    Weight.exceeds (other.between (arena.classesAt left) (arena.classesAt right))
      (other.between (arena.classesAt first) (arena.classesAt second)) = true
  not_exceeded : Weight.exceeds (arena.couplingOf affinity first second)
      (arena.couplingOf affinity left right) = false →
    Weight.exceeds (other.between (arena.classesAt first) (arena.classesAt second))
      (other.between (arena.classesAt left) (arena.classesAt right)) = false

def Dendrogram.KeepsChoices (dendrogram : Dendrogram V) (affinity : Affinity V)
    (other : Affinity W) : Prop :=
  dendrogram.EachChoice (dendrogram.KeepsChoice affinity other)

variable {graph : CouplingGraph V} {other : CouplingGraph W}

namespace Origin

variable {arena : Arena V} {forest : Forest V} {before middle after : List Cluster}
  {left right : Cluster} {coupling : V}
  (origin : Origin graph arena forest before left middle right after coupling)

include origin

theorem other_between_eq (classes : graph.classes = other.classes) {first second : Cluster}
    (firstActive : first ∈ forest.active) (secondActive : second ∈ forest.active) :
    other.matrix.between first.members second.members =
      (Affinity.ofGraph other).between (arena.classesAt first.node)
        (arena.classesAt second.node) := by
  have reads := AffinityMatrix.reads_names_of_affinity (Affinity.ofGraph other)
    (origin.canonical.bounded firstActive) (origin.canonical.bounded secondActive)
    (origin.named firstActive) (origin.named secondActive)
  rw [classes] at reads
  exact reads.between_eq

/-- Pairs at different places of the scan are different pairs of nodes. -/
theorem scanned_apart {pair next : (Cluster × Nat) × (Cluster × Nat)}
    (member : pair ∈ pairs forest.active.zipIdx) (nextMember : next ∈ pairs forest.active.zipIdx)
    (order : PairBefore (fun one other : Cluster × Nat => Leads one.1.members other.1.members)
      pair next) :
    (pair.1.1.node, pair.2.1.node) ≠ (next.1.1.node, next.2.1.node) := by
  obtain ⟨oneActive, otherActive, _⟩ := origin.scanned_pair member
  obtain ⟨nextOneActive, nextOtherActive, _⟩ := origin.scanned_pair nextMember
  intro same
  obtain ⟨sameOne, sameOther⟩ := Prod.mk.inj same
  rcases order with leads | ⟨_, leads⟩
  · have smaller := origin.smaller_of_leads oneActive nextOneActive leads
    rw [sameOne] at smaller
    exact smaller.asymm smaller
  · have smaller := origin.smaller_of_leads otherActive nextOtherActive leads
    rw [sameOther] at smaller
    exact smaller.asymm smaller

section Kept

variable (classes : graph.classes = other.classes)
  (kept : ∀ first second,
    arena.OtherPairAt forest.nodes.size left.node right.node first second →
    arena.KeepsChoice (Affinity.ofGraph graph) (Affinity.ofGraph other) left.node right.node
      first second)

include classes kept

theorem keeps_scanned {pair : (Cluster × Nat) × (Cluster × Nat)}
    (member : pair ∈ pairs forest.active.zipIdx)
    (differs : (pair.1.1.node, pair.2.1.node) ≠ (left.node, right.node)) :
    (Weight.exceeds coupling (graph.matrix.between pair.1.1.members pair.2.1.members) = true →
      Weight.exceeds (other.matrix.between left.members right.members)
        (other.matrix.between pair.1.1.members pair.2.1.members) = true) ∧
    (Weight.exceeds (graph.matrix.between pair.1.1.members pair.2.1.members) coupling = false →
      Weight.exceeds (other.matrix.between pair.1.1.members pair.2.1.members)
        (other.matrix.between left.members right.members) = false) := by
  obtain ⟨oneActive, otherActive, smaller⟩ := origin.scanned_pair member
  have keep := kept _ _ ⟨(origin.active_before _).mpr ⟨_, oneActive, rfl⟩,
    (origin.active_before _).mpr ⟨_, otherActive, rfl⟩, smaller, differs⟩
  rw [origin.coupling_eq, origin.between_eq oneActive otherActive,
    origin.other_between_eq classes oneActive otherActive,
    origin.other_between_eq classes origin.left_active origin.right_active]
  exact ⟨keep.exceeds, keep.not_exceeded⟩

/-- A round over the other weights takes the same pair if the choice is kept. -/
theorem same_choice [OrderedWeight V]
    (numeric : arena.NumericAt (Affinity.ofGraph graph) forest.nodes.size) :
    ∃ pair otherCoupling, Forest.strongestPair graph.matrix forest.active = some (pair, coupling) ∧
      Forest.strongestPair other.matrix forest.active = some (pair, otherCoupling) := by
  obtain ⟨leftPosition, rightPosition, found⟩ := origin.found
  obtain ⟨front, back, split, earlier, later⟩ :=
    first_strongest_split (origin.pairs_numeric numeric) found
  have ordered := pairs_ordered origin.zip_idx_ordered
  rw [split, List.pairwise_append, List.pairwise_cons] at ordered
  obtain ⟨_, ⟨behind, _⟩, across⟩ := ordered
  have chosen : ((left, leftPosition), (right, rightPosition)) ∈ pairs forest.active.zipIdx :=
    first_strongest_mem found
  refine ⟨_, other.matrix.between left.members right.members, found, ?_⟩
  rw [Forest.strongestPair, split]
  apply first_strongest_of_split
  · intro pair inFront
    have member : pair ∈ pairs forest.active.zipIdx := split ▸ List.mem_append_left _ inFront
    have differs := origin.scanned_apart member chosen (across pair inFront _ List.mem_cons_self)
    exact (origin.keeps_scanned classes kept member differs).1 (earlier pair inFront)
  · intro pair inBack
    have member : pair ∈ pairs forest.active.zipIdx :=
      split ▸ List.mem_append_right _ (List.mem_cons_of_mem _ inBack)
    have differs := (origin.scanned_apart chosen member (behind pair inBack)).symm
    exact (origin.keeps_scanned classes kept member differs).2 (later pair inBack)

end Kept

end Origin

variable [OrderedWeight V] {dendrogram : Dendrogram V}

theorem forests_in_step (classes : graph.classes = other.classes)
    (clustered : graph.cluster? = some dendrogram)
    (numeric : dendrogram.Numeric (Affinity.ofGraph graph))
    (kept : dendrogram.KeepsChoices (Affinity.ofGraph graph) (Affinity.ofGraph other))
    {round : Nat} (bound : round ≤ graph.classes.size - 1) :
    (graph.forestAt round).InStep (other.forestAt round) := by
  induction round with
  | zero =>
      rw [CouplingGraph.forestAt, CouplingGraph.forestAt, classes]
      exact Forest.in_step_of_classes other.classes
  | succ round induction =>
      have inStep := induction (Nat.le_of_succ_le bound)
      obtain ⟨size, before, left, middle, right, after, coupling, origin⟩ :=
        origin_of_round clustered bound
      obtain ⟨pair, otherCoupling, found, otherFound⟩ := origin.same_choice classes
        (kept _ _ _ _ _ origin.stored) (numeric _ (Arena.lt_of_stored origin.stored))
      rw [inStep.active] at otherFound
      rw [CouplingGraph.forest_at_succ, CouplingGraph.forest_at_succ]
      exact inStep.merge_strongest found otherFound

/-- A clustering whose choices are all kept has the shape of the clustering over the other weights. -/
theorem cluster_in_step (classes : graph.classes = other.classes)
    (clustered : graph.cluster? = some dendrogram)
    (numeric : dendrogram.Numeric (Affinity.ofGraph graph))
    (kept : dendrogram.KeepsChoices (Affinity.ofGraph graph) (Affinity.ofGraph other)) :
    ∃ otherDendrogram, other.cluster? = some otherDendrogram ∧
      dendrogram.SameShape otherDendrogram.toArena ∧ dendrogram.root = otherDendrogram.root := by
  have some_class : other.cluster? ≠ none := by
    rw [Ne, CouplingGraph.cluster_eq_none_iff, ← classes, ← CouplingGraph.cluster_eq_none_iff,
      clustered]
    exact Option.some_ne_none _
  obtain ⟨otherDendrogram, otherClustered⟩ := Option.ne_none_iff_exists'.mp some_class
  obtain ⟨nodes, cluster, active, root⟩ := CouplingGraph.cluster_eq_some clustered
  obtain ⟨otherNodes, otherCluster, otherActive, otherRoot⟩ :=
    CouplingGraph.cluster_eq_some otherClustered
  have inStep : graph.lastForest.InStep other.lastForest := by
    have reached := forests_in_step classes clustered numeric kept (Nat.le_refl _)
    rwa [CouplingGraph.lastForest, CouplingGraph.lastForest, ← classes]
  refine ⟨otherDendrogram, otherClustered, ?_, ?_⟩
  · rw [nodes, otherNodes]
    exact inStep.shape
  · have same := inStep.active
    rw [active, otherActive, List.singleton_inj] at same
    rw [← root, ← otherRoot, same]

end Runs

end Cohesion
