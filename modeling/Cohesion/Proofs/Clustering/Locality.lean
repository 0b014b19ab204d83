import Cohesion.Proofs.Clustering.Greedy
import Cohesion.Proofs.Clustering.Subtree
import Cohesion.Proofs.Coupling.Restriction

/-!
# Clustering what is below a node

The classes of a node, clustered alone with the couplings among them, give the tree below that node
again. The run over these classes is compared with the run over all of them, node by node: the pair
joined next by the one is the pair that the other joins when it comes to the same place, since both
take the first strongest pair and everything active in the small run is active in the large one.
-/

namespace Cohesion

variable {W : Type}

def Node.relabel (place : Nat → Nat) : Node W → Node W
  | leaf name => leaf name
  | merged left right coupling classes => merged (place left) (place right) coupling classes

@[simp] theorem Node.classes_relabel (place : Nat → Nat) (node : Node W) :
    (node.relabel place).classes = node.classes := by
  cases node <;> rfl

@[simp] theorem Node.children_relabel (place : Nat → Nat) (node : Node W) :
    (node.relabel place).children = node.children.map place := by
  cases node <;> rfl

/-- The nodes below a node of the whole are the nodes of the part, renumbered in ascending order. -/
structure Dendrogram.IsSubtreeAt (part whole : Dendrogram W) (top : Nat) (place : Nat → Nat) :
    Prop where
  ascending : ∀ first second, first < second → second < part.nodes.size →
    place first < place second
  onto : ∀ id, whole.Below top id ↔ ∃ number < part.nodes.size, place number = id
  same : ∀ number < part.nodes.size,
    whole.nodes[place number]? = part.nodes[number]?.map (Node.relabel place)
  root : place part.root = top

section Mirrored

variable [Weight W]

/-- What two runs have in common when they come to corresponding places. -/
structure Arena.MirroredAt (whole part : Arena W) (affinity inner : Affinity W)
    (place : Nat → Nat) (id : Nat) : Prop where
  injective : ∀ first < id, ∀ second < id, place first = place second → first = second
  active : ∀ number < id,
    part.ActiveBefore id number ↔ whole.ActiveBefore (place id) (place number)
  classes : ∀ number < id, whole.classesAt (place number) = part.classesAt number
  couplings : ∀ first < id, ∀ second < id,
    whole.couplingOf affinity (place first) (place second) = part.couplingOf inner first second

namespace Arena.MirroredAt

variable {whole part : Arena W} {affinity inner : Affinity W} {place : Nat → Nat} {id : Nat}
  (mirrored : whole.MirroredAt part affinity inner place id)

include mirrored

theorem smaller {first second : Nat} (firstBound : first < id) (secondBound : second < id) :
    whole.Smaller (place first) (place second) ↔ part.Smaller first second := by
  rw [Smaller, Smaller, mirrored.classes first firstBound, mirrored.classes second secondBound]

theorem numeric [OrderedWeight W] (numeric : whole.NumericAt affinity (place id)) :
    part.NumericAt inner id := by
  intro first second firstActive secondActive smaller
  have firstBound := firstActive.1
  have secondBound := secondActive.1
  rw [← mirrored.couplings first firstBound second secondBound]
  exact numeric _ _ ((mirrored.active first firstBound).mp firstActive)
    ((mirrored.active second secondBound).mp secondActive)
    ((mirrored.smaller firstBound secondBound).mpr smaller)

/-- The first strongest pair of the whole is that of the part, if it is a pair of the part. -/
theorem same_pair {left right innerLeft innerRight : Nat} {coupling innerCoupling : W}
    (outerGreedy : whole.Greedy affinity (place id) (place left) (place right) coupling)
    (innerGreedy : part.Greedy inner id innerLeft innerRight innerCoupling)
    (leftBound : left < id) (rightBound : right < id) :
    innerLeft = left ∧ innerRight = right ∧ innerCoupling = coupling := by
  have innerLeftBound := innerGreedy.left_active.1
  have innerRightBound := innerGreedy.right_active.1
  have leftActive := (mirrored.active left leftBound).mpr outerGreedy.left_active
  have rightActive := (mirrored.active right rightBound).mpr outerGreedy.right_active
  have innerLeftActive := (mirrored.active innerLeft innerLeftBound).mp innerGreedy.left_active
  have innerRightActive := (mirrored.active innerRight innerRightBound).mp innerGreedy.right_active
  have smaller := (mirrored.smaller leftBound rightBound).mp outerGreedy.ordered
  have innerSmaller := (mirrored.smaller innerLeftBound innerRightBound).mpr innerGreedy.ordered
  have couplingEq := outerGreedy.coupling_eq
  have innerCouplingEq := innerGreedy.coupling_eq
  rw [mirrored.couplings left leftBound right rightBound] at couplingEq
  -- Neither coupling exceeds the other, so each pair is the other one or comes before it.
  have notAbove := outerGreedy.strongest _ _ innerLeftActive innerRightActive innerSmaller
  have notBelow := innerGreedy.strongest _ _ leftActive rightActive smaller
  have fromInner := innerGreedy.first_of_equals _ _ leftActive rightActive smaller
  have fromOuter := outerGreedy.first_of_equals _ _ innerLeftActive innerRightActive innerSmaller
  rw [mirrored.couplings innerLeft innerLeftBound innerRight innerRightBound,
    ← innerCouplingEq] at notAbove fromOuter
  rw [← couplingEq] at notBelow fromInner
  have samePair : innerLeft = left ∧ innerRight = right := by
    rcases fromInner notAbove with same | innerFirst
    · cases same
      exact ⟨rfl, rfl⟩
    · rcases fromOuter notBelow with same | outerFirst
      · rw [Prod.mk.injEq] at same
        exact ⟨mirrored.injective _ innerLeftBound _ leftBound same.1,
          mirrored.injective _ innerRightBound _ rightBound same.2⟩
      · have outerFirstInside : PairBefore part.Smaller (left, right) (innerLeft, innerRight) := by
          rcases outerFirst with less | ⟨same, less⟩
          · exact .inl ((mirrored.smaller leftBound innerLeftBound).mp less)
          · exact .inr ⟨mirrored.injective _ leftBound _ innerLeftBound same,
              (mirrored.smaller rightBound innerRightBound).mp less⟩
        exact absurd outerFirstInside (asymm innerFirst)
  obtain ⟨rfl, rfl⟩ := samePair
  exact ⟨rfl, rfl, innerCouplingEq.trans couplingEq.symm⟩

end Arena.MirroredAt

end Mirrored

def Dendrogram.MatchesUpTo (whole part : Dendrogram W) (place : Nat → Nat) (count : Nat) : Prop :=
  ∀ number < count, number < part.nodes.size →
    whole.nodes[place number]? = part.nodes[number]?.map (Node.relabel place)

namespace Dendrogram.MatchesUpTo

variable {whole part : Dendrogram W} {place : Nat → Nat} {count : Nat}
  (matching : whole.MatchesUpTo part place count)

include matching

theorem classes_at {number : Nat} (known : number < count) (bound : number < part.nodes.size) :
    whole.classesAt (place number) = part.classesAt number := by
  rw [Arena.classesAt, Arena.classesAt, matching number known bound, Option.map_map]
  congr 2
  funext node
  exact node.classes_relabel place

theorem is_child {child parent : Nat} (known : parent < count) (bound : parent < part.nodes.size) :
    whole.IsChild child (place parent) ↔
      ∃ number, part.IsChild number parent ∧ place number = child := by
  obtain ⟨node, stored⟩ := part.stored_of_lt bound
  have moved := matching parent known bound
  rw [stored, Option.map_some] at moved
  simp only [Arena.IsChild, moved, stored, Option.some.injEq, exists_eq_left',
    Node.children_relabel, List.mem_map]

end Dendrogram.MatchesUpTo

theorem Dendrogram.IsSubtreeAt.classes_at {part whole : Dendrogram W} {top number : Nat}
    {place : Nat → Nat} (subtree : part.IsSubtreeAt whole top place)
    (bound : number < part.nodes.size) :
    whole.classesAt (place number) = part.classesAt number :=
  Dendrogram.MatchesUpTo.classes_at (fun other _ => subtree.same other) bound bound

structure SubtreeRun [Weight W] (graph : CouplingGraph W) (whole part : Dendrogram W) (top : Nat)
    (place : Nat → Nat) : Prop where
  whole_clustered : graph.cluster? = some whole
  bound : top < whole.nodes.size
  part_clustered : (graph.restrict (whole.classesAt top)).cluster? = some part
  enumerates : whole.Enumerates graph.classes top place

namespace SubtreeRun

variable [Weight W] {graph : CouplingGraph W} {whole part : Dendrogram W} {top : Nat}
  {place : Nat → Nat} (run : SubtreeRun graph whole part top place)

include run

theorem whole_grown : whole.Grown graph.classes := cluster_grown run.whole_clustered

theorem part_grown : part.Grown (whole.classesAt top) := by
  have grown := cluster_grown run.part_clustered
  rwa [CouplingGraph.classes_restrict] at grown

theorem place_lt {first second : Nat} (less : first < second) (bound : second < part.nodes.size) :
    place first < place second := by
  have count := run.part_grown.count
  exact run.enumerates.ascending first second less (by omega)

theorem lt_of_place_lt {first second : Nat} (bound : first < part.nodes.size)
    (less : place first < place second) : first < second := by
  rcases Nat.lt_trichotomy first second with before | same | after
  · exact before
  · rw [same] at less
    exact absurd less (Nat.lt_irrefl _)
  · exact absurd less (Nat.lt_asymm (run.place_lt after bound))

theorem place_injective {first second : Nat} (firstBound : first < part.nodes.size)
    (secondBound : second < part.nodes.size) (same : place first = place second) :
    first = second := by
  rcases Nat.lt_trichotomy first second with before | equal | after
  · exact absurd same (Nat.ne_of_lt (run.place_lt before secondBound))
  · exact equal
  · exact absurd same.symm (Nat.ne_of_lt (run.place_lt after firstBound))

theorem onto (id : Nat) : whole.Below top id ↔ ∃ number < part.nodes.size, place number = id := by
  have count := run.part_grown.count
  rw [run.enumerates.onto]
  constructor
  · rintro ⟨number, small, same⟩
    exact ⟨number, by omega, same⟩
  · rintro ⟨number, bound, same⟩
    exact ⟨number, by omega, same⟩

theorem below {number : Nat} (bound : number < part.nodes.size) : whole.Below top (place number) :=
  (run.onto _).mpr ⟨number, bound, rfl⟩

theorem place_root : place part.root = top := by
  obtain ⟨number, bound, same⟩ := (run.onto top).mp .top
  have last := run.part_grown.root_last
  have notAbove := (run.below part.root_lt).le
  rcases Nat.lt_or_ge number part.root with before | atRoot
  · have less := run.place_lt before part.root_lt
    omega
  · have equal : number = part.root := by omega
    rw [← equal, same]

theorem active_before {id number : Nat} (matching : whole.MatchesUpTo part place id)
    (bound : id < part.nodes.size) (before : number < id) :
    part.ActiveBefore id number ↔ whole.ActiveBefore (place id) (place number) := by
  have numberBound := Nat.lt_trans before bound
  have placeBefore := run.place_lt before bound
  constructor
  · rintro ⟨_, orphan⟩
    refine ⟨placeBefore, fun parent parentBefore isChild => ?_⟩
    have notTop : place number ≠ top := by
      have notAbove := (run.below bound).le
      omega
    -- The parent is the only one, so it is below the top node too.
    obtain ⟨known, knownBelow, knownChild⟩ := (run.below numberBound).parent notTop
    obtain rfl := run.whole_grown.parent_unique isChild knownChild
    obtain ⟨inner, innerBound, rfl⟩ := (run.onto parent).mp knownBelow
    have innerBefore := run.lt_of_place_lt innerBound parentBefore
    obtain ⟨child, innerChild, same⟩ := (matching.is_child innerBefore innerBound).mp isChild
    have childBound := Nat.lt_trans innerChild.lt innerBound
    rw [run.place_injective childBound numberBound same] at innerChild
    exact orphan inner innerBefore innerChild
  · rintro ⟨_, orphan⟩
    refine ⟨before, fun parent parentBefore isChild => ?_⟩
    have parentBound := Nat.lt_trans parentBefore bound
    exact orphan (place parent) (run.place_lt parentBefore bound)
      ((matching.is_child parentBefore parentBound).mpr ⟨number, isChild, rfl⟩)

theorem mirrored {id : Nat} (matching : whole.MatchesUpTo part place id)
    (bound : id < part.nodes.size) :
    whole.MirroredAt part.toArena (Affinity.ofGraph graph)
      (Affinity.ofGraph (graph.restrict (whole.classesAt top))) place id := by
  have classes : ∀ number < id, whole.classesAt (place number) = part.classesAt number :=
    fun number before => matching.classes_at before (Nat.lt_trans before bound)
  have kept : ∀ number < id, ∀ name ∈ part.classesAt number, name ∈ whole.classesAt top := by
    intro number before name member
    rw [← classes number before] at member
    exact run.whole_grown.mem_classes_of_below run.bound
      (run.below (Nat.lt_trans before bound)) member
  constructor
  case injective =>
    intro first firstBefore second secondBefore
    exact run.place_injective (Nat.lt_trans firstBefore bound) (Nat.lt_trans secondBefore bound)
  case active => exact fun number before => run.active_before matching bound before
  case classes => exact classes
  case couplings =>
    intro first firstBefore second secondBefore
    rw [Arena.couplingOf, Arena.couplingOf, classes first firstBefore, classes second secondBefore]
    exact ((Affinity.agree_on_restrict graph _).between (kept first firstBefore)
      (kept second secondBefore)).symm

theorem leaf_same {number : Nat} (small : number < (whole.classesAt top).size) :
    whole.nodes[place number]? = part.nodes[number]?.map (Node.relabel place) := by
  rw [run.enumerates.leaf_at number small, run.part_grown.leaf_at number small]
  rfl

theorem joint_same [OrderedWeight W] {id : Nat}
    (numeric : whole.NumericAt (Affinity.ofGraph graph) (place id))
    (matching : whole.MatchesUpTo part place id) (large : (whole.classesAt top).size ≤ id)
    (bound : id < part.nodes.size) :
    whole.nodes[place id]? = part.nodes[id]?.map (Node.relabel place) := by
  have count := run.part_grown.count
  have wholeBound := Dendrogram.Grown.lt_of_below run.bound (run.below bound)
  obtain ⟨outerLeft, outerRight, coupling, outer⟩ := run.whole_grown.joint_at (place id)
    (run.enumerates.joint_at id large (by omega)) wholeBound
  obtain ⟨innerLeft, innerRight, innerCoupling, inner⟩ :=
    run.part_grown.joint_at id large bound
  have child_place : ∀ child, whole.IsChild child (place id) →
      ∃ number < id, place number = child := by
    intro child isChild
    obtain ⟨number, numberBound, same⟩ := (run.onto child).mp ((run.below bound).child isChild)
    refine ⟨number, run.lt_of_place_lt numberBound ?_, same⟩
    rw [same]
    exact isChild.lt
  obtain ⟨left, leftBound, rfl⟩ :=
    child_place outerLeft ((Arena.is_child_merged outer.stored).mpr (.inl rfl))
  obtain ⟨right, rightBound, rfl⟩ :=
    child_place outerRight ((Arena.is_child_merged outer.stored).mpr (.inr rfl))
  have mirrored := run.mirrored matching bound
  have outerGreedy := merged_greedy run.whole_clustered outer.stored numeric
  have innerGreedy := merged_greedy run.part_clustered inner.stored (mirrored.numeric numeric)
  obtain ⟨rfl, rfl, rfl⟩ := mirrored.same_pair outerGreedy innerGreedy leftBound rightBound
  rw [outer.stored, inner.stored, mirrored.classes _ leftBound, mirrored.classes _ rightBound]
  rfl

theorem is_subtree [OrderedWeight W] (numeric : whole.Numeric (Affinity.ofGraph graph)) :
    part.IsSubtreeAt whole top place := by
  have same : ∀ number < part.nodes.size,
      whole.nodes[place number]? = part.nodes[number]?.map (Node.relabel place) := by
    intro number
    induction number using Nat.strongRecOn with
    | ind number induction =>
        intro bound
        rcases Nat.lt_or_ge number (whole.classesAt top).size with small | large
        · exact run.leaf_same small
        · have wholeBound := Dendrogram.Grown.lt_of_below run.bound (run.below bound)
          exact run.joint_same (numeric _ wholeBound) induction large bound
  exact ⟨fun _ _ => run.place_lt, run.onto, same, run.place_root⟩

end SubtreeRun

end Cohesion
