import Mathlib.Data.List.Range
import Cohesion.Proofs.Partition.Refinement

/-!
# The modules of a cut in level order

At any time the queue of a cut holds the rest of one level of the tree and, behind it, what has come
from the front of this level. So the nodes that are taken from it come level by level and from left to
right, and those accepted are the accepted nodes that have no accepted node above them.
-/

namespace Cohesion

variable {W : Type}

namespace Arena

variable {arena : Arena W}

inductive AtDepth (arena : Arena W) (top : Nat) : Nat → Nat → Prop
  | top : AtDepth arena top 0 top
  | child {depth parent child : Nat} : AtDepth arena top depth parent →
      arena.IsChild child parent → AtDepth arena top (depth + 1) child

theorem AtDepth.is_below {top depth id : Nat} (deep : arena.AtDepth top depth id) :
    arena.Below top id := by
  induction deep with
  | top => exact .top
  | child _ isChild above => exact .child above isChild

theorem Below.exists_depth {top id : Nat} (below : arena.Below top id) :
    ∃ depth, arena.AtDepth top depth id := by
  induction below with
  | top => exact ⟨0, .top⟩
  | child _ isChild above =>
      rcases above with ⟨depth, deep⟩
      exact ⟨depth + 1, .child deep isChild⟩

theorem AtDepth.add_le {top depth id : Nat} (deep : arena.AtDepth top depth id) :
    id + depth ≤ top := by
  induction deep with
  | top => exact Nat.le_refl _
  | child _ isChild above =>
      have earlier := isChild.lt
      omega

/-- Some node at or below the top has one node at or below its left child and the other one at or
below its right child. -/
def LeftOf (arena : Arena W) (top first second : Nat) : Prop :=
  ∃ id left right coupling classes,
    arena.nodes[id]? = some (.merged left right coupling classes) ∧ arena.Below top id ∧
      arena.Below left first ∧ arena.Below right second

theorem LeftOf.children {top first second child other : Nat}
    (apart : arena.LeftOf top first second) (isChild : arena.IsChild child first)
    (otherChild : arena.IsChild other second) : arena.LeftOf top child other := by
  rcases apart with ⟨id, left, right, coupling, classes, stored, below, first, second⟩
  exact ⟨id, left, right, coupling, classes, stored, below, .child first isChild,
    .child second otherChild⟩

/-- The order of nodes by depth, and from left to right within a level. -/
def BeforeInLevels (arena : Arena W) (top first second : Nat) : Prop :=
  ∃ depth deeper, arena.AtDepth top depth first ∧ arena.AtDepth top deeper second ∧
    (depth < deeper ∨ depth = deeper ∧ arena.LeftOf top first second)

section Cut

variable [Weight W] (arena : Arena W) (affinity : Affinity W) (threshold : W)

def moduleAt? (id : Nat) : Option (Module W) :=
  arena.nodes[id]?.bind (Node.module? affinity threshold)

def lower (level : List Nat) : List Nat :=
  level.flatMap fun id =>
    if (arena.moduleAt? affinity threshold id).isSome then []
    else (arena.nodes[id]?.map Node.children).getD []

/-- What is looked at in each level: the start, then the children of those refused. -/
def frontier (start : Nat) : Nat → List Nat
  | 0 => [start]
  | depth + 1 => arena.lower affinity threshold (frontier start depth)

theorem lower_cons_of_accepted {id : Nat} {module : Module W}
    (accepted : arena.moduleAt? affinity threshold id = some module) (level : List Nat) :
    arena.lower affinity threshold (id :: level) = arena.lower affinity threshold level := by
  simp [lower, accepted]

theorem lower_cons_of_refused {id : Nat} (refused : arena.moduleAt? affinity threshold id = none)
    (level : List Nat) :
    arena.lower affinity threshold (id :: level) =
      (arena.nodes[id]?.map Node.children).getD [] ++ arena.lower affinity threshold level := by
  simp [lower, refused]

theorem mem_lower_iff {level : List Nat} {child : Nat} :
    child ∈ arena.lower affinity threshold level ↔ ∃ parent ∈ level,
      arena.moduleAt? affinity threshold parent = none ∧ arena.IsChild child parent := by
  simp only [lower, List.mem_flatMap]
  apply exists_congr
  intro parent
  apply and_congr_right
  intro _
  cases decision : arena.moduleAt? affinity threshold parent with
  | none => simpa using arena.mem_children_iff
  | some module => simp

/-- A queue gives the modules of the nodes in front, while their children line up behind the rest. -/
theorem cut_append (front back : List Nat) :
    arena.cut affinity threshold (front ++ back) =
      front.filterMap (arena.moduleAt? affinity threshold) ++
        arena.cut affinity threshold (back ++ arena.lower affinity threshold front) := by
  induction front generalizing back with
  | nil => simp [lower]
  | cons id front induction =>
      rw [List.cons_append]
      cases stored : arena.nodes[id]? with
      | none =>
          have refused : arena.moduleAt? affinity threshold id = none := by
            simp [moduleAt?, stored]
          rw [cut_cons, List.filterMap_cons_none refused, arena.lower_cons_of_refused _ _ refused,
            stored]
          exact induction back
      | some node =>
          have decided : arena.moduleAt? affinity threshold id =
              node.module? affinity threshold := by
            simp [moduleAt?, stored]
          cases decision : node.module? affinity threshold with
          | some module =>
              have accepted := decided.trans decision
              rw [cut_of_accepted stored decision, List.filterMap_cons_some accepted,
                arena.lower_cons_of_accepted _ _ accepted]
              exact congrArg _ (induction back)
          | none =>
              have refused := decided.trans decision
              have behind := induction (back ++ node.children)
              rw [cut_of_refused stored decision, List.filterMap_cons_none refused,
                arena.lower_cons_of_refused _ _ refused, stored]
              simpa using behind

/-- The cut goes through one level after the other. -/
theorem cut_levels (start depths : Nat) :
    arena.cut affinity threshold [start] =
      (List.range depths).flatMap (fun depth =>
        (arena.frontier affinity threshold start depth).filterMap
          (arena.moduleAt? affinity threshold)) ++
        arena.cut affinity threshold (arena.frontier affinity threshold start depths) := by
  induction depths with
  | zero => rfl
  | succ depths induction =>
      have level := arena.cut_append affinity threshold
        (arena.frontier affinity threshold start depths) []
      rw [List.append_nil, List.nil_append] at level
      rw [induction, level, List.range_succ, List.flatMap_append, List.flatMap_singleton,
        List.append_assoc, frontier]

theorem at_depth_of_mem_frontier {start depth id : Nat}
    (member : id ∈ arena.frontier affinity threshold start depth) :
    arena.AtDepth start depth id := by
  induction depth generalizing id with
  | zero =>
      rw [List.mem_singleton.mp member]
      exact .top
  | succ depth induction =>
      rcases (arena.mem_lower_iff affinity threshold).mp member with ⟨parent, above, _, isChild⟩
      exact .child (induction above) isChild

theorem frontier_below_start (start : Nat) :
    arena.frontier affinity threshold start (start + 1) = [] := by
  rw [List.eq_nil_iff_forall_not_mem]
  intro id member
  have bound := (arena.at_depth_of_mem_frontier affinity threshold member).add_le
  omega

theorem frontier_ordered (start depth : Nat) :
    (arena.frontier affinity threshold start depth).Pairwise (arena.LeftOf start) := by
  induction depth with
  | zero => exact List.pairwise_singleton _ _
  | succ depth induction =>
      rw [frontier, lower, List.pairwise_flatMap]
      constructor
      · intro id member
        split
        · exact .nil
        · have below := (arena.at_depth_of_mem_frontier affinity threshold member).is_below
          cases stored : arena.nodes[id]? with
          | none => exact .nil
          | some node =>
              cases node with
              | leaf name => exact .nil
              | merged left right coupling classes =>
                  have apart : arena.LeftOf start left right :=
                    ⟨id, left, right, coupling, classes, stored, below, .top, .top⟩
                  simp [Node.children, apart]
      · apply induction.imp
        intro first second apart child childMember other otherMember
        have isChild : ∀ {parent place : Nat},
            place ∈ (if (arena.moduleAt? affinity threshold parent).isSome then []
              else (arena.nodes[parent]?.map Node.children).getD []) →
            arena.IsChild place parent := by
          intro parent place inside
          split at inside
          · exact absurd inside List.not_mem_nil
          · exact arena.mem_children_iff.mp inside
        exact apart.children (isChild childMember) (isChild otherMember)

/-- The accepted nodes of all levels, in the order in which the cut meets them. -/
def topmostPlaces (start : Nat) : List Nat :=
  (List.range (start + 1)).flatMap fun depth =>
    (arena.frontier affinity threshold start depth).filter fun id =>
      (arena.moduleAt? affinity threshold id).isSome

theorem modules_of_topmost (start : Nat) :
    (arena.cut affinity threshold [start]).map some =
      (arena.topmostPlaces affinity threshold start).map (arena.moduleAt? affinity threshold) := by
  have level : ∀ places : List Nat,
      (places.filterMap (arena.moduleAt? affinity threshold)).map some =
        (places.filter fun id => (arena.moduleAt? affinity threshold id).isSome).map
          (arena.moduleAt? affinity threshold) := by
    intro places
    rw [List.map_filterMap_some_eq_filter_map_isSome, List.filter_map]
    rfl
  rw [arena.cut_levels affinity threshold start (start + 1), frontier_below_start, cut_nil,
    List.append_nil, topmostPlaces, List.map_flatMap, List.map_flatMap]
  simp only [level]

theorem topmost_places_ordered (start : Nat) :
    (arena.topmostPlaces affinity threshold start).Pairwise (arena.BeforeInLevels start) := by
  rw [topmostPlaces, List.pairwise_flatMap]
  constructor
  · intro depth _
    have ordered := (arena.frontier_ordered affinity threshold start depth).sublist
      (List.filter_sublist (p := fun id => (arena.moduleAt? affinity threshold id).isSome))
    apply ordered.imp_of_mem
    intro first second firstMember secondMember apart
    have firstDeep := arena.at_depth_of_mem_frontier affinity threshold
      (List.mem_of_mem_filter firstMember)
    have secondDeep := arena.at_depth_of_mem_frontier affinity threshold
      (List.mem_of_mem_filter secondMember)
    exact ⟨depth, depth, firstDeep, secondDeep, .inr ⟨rfl, apart⟩⟩
  · apply List.pairwise_lt_range.imp
    intro depth deeper less first firstMember second secondMember
    have firstDeep := arena.at_depth_of_mem_frontier affinity threshold
      (List.mem_of_mem_filter firstMember)
    have secondDeep := arena.at_depth_of_mem_frontier affinity threshold
      (List.mem_of_mem_filter secondMember)
    exact ⟨depth, deeper, firstDeep, secondDeep, .inl less⟩

end Cut

end Arena

namespace Dendrogram.Grown

variable {classes : NameSet} {dendrogram : Dendrogram W} (grown : dendrogram.Grown classes)

include grown

theorem depth_unique {top depth other id : Nat} (deep : dendrogram.AtDepth top depth id)
    (otherDeep : dendrogram.AtDepth top other id) : depth = other := by
  induction deep generalizing other with
  | top =>
      have bound := otherDeep.add_le
      omega
  | @child depth parent child above isChild induction =>
      cases otherDeep with
      | top =>
          have earlier := isChild.lt
          have bound := above.add_le
          omega
      | @child shallower otherParent _ otherAbove otherChild =>
          have same := grown.parent_unique otherChild isChild
          rw [same] at otherAbove
          rw [induction otherAbove]

theorem not_before_itself {top id : Nat} : ¬dendrogram.BeforeInLevels top id id := by
  intro before
  rcases before with ⟨depth, deeper, deep, otherDeep, less | ⟨_, apart⟩⟩
  · exact Nat.ne_of_lt less (grown.depth_unique deep otherDeep)
  · rcases apart with ⟨place, left, right, coupling, joined, stored, _, inLeft, inRight⟩
    exact grown.not_below_right (Arena.lt_of_stored stored) (grown.joint_of_stored stored) inLeft
      inRight

variable [Weight W] {affinity : Affinity W} {threshold : W}

/-- The cut gets down to a node exactly if it accepts none above it. -/
theorem mem_frontier_iff {start depth id : Nat} :
    id ∈ dendrogram.frontier affinity threshold start depth ↔ dendrogram.AtDepth start depth id ∧
      ∀ above, dendrogram.Below start above → dendrogram.Below above id → above ≠ id →
        dendrogram.moduleAt? affinity threshold above = none := by
  constructor
  · intro member
    refine ⟨dendrogram.at_depth_of_mem_frontier affinity threshold member, ?_⟩
    induction depth generalizing id with
    | zero =>
        intro above belowStart belowAbove differs
        rw [List.mem_singleton.mp member] at belowAbove differs
        have same := Nat.le_antisymm belowStart.le belowAbove.le
        exact absurd same differs
    | succ depth induction =>
        intro above belowStart belowAbove differs
        rcases (dendrogram.mem_lower_iff affinity threshold).mp member with
          ⟨parent, inFrontier, refused, isChild⟩
        rcases belowAbove.parent (Ne.symm differs) with ⟨other, belowOther, otherChild⟩
        rw [grown.parent_unique otherChild isChild] at belowOther
        by_cases isParent : above = parent
        · rw [isParent]
          exact refused
        · exact induction inFrontier above belowStart belowOther isParent
  · intro found
    rcases found with ⟨deep, refused⟩
    induction deep with
    | top => exact List.mem_singleton_self _
    | @child depth parent child above isChild induction =>
        rw [Arena.frontier, Arena.mem_lower_iff]
        have differs : parent ≠ child := (Nat.ne_of_lt isChild.lt).symm
        refine ⟨parent, induction ?_, refused parent above.is_below (.child .top isChild) differs,
          isChild⟩
        intro higher belowStart belowHigher _
        have notChild : higher ≠ child := by
          have earlier := isChild.lt
          have later := belowHigher.le
          omega
        exact refused higher belowStart (.child belowHigher isChild) notChild

theorem mem_topmost_places_iff {start id : Nat} :
    id ∈ dendrogram.topmostPlaces affinity threshold start ↔
      dendrogram.Below start id ∧ (dendrogram.moduleAt? affinity threshold id).isSome = true ∧
        ∀ above, dendrogram.Below start above → dendrogram.Below above id → above ≠ id →
          dendrogram.moduleAt? affinity threshold above = none := by
  simp only [Arena.topmostPlaces, List.mem_flatMap, List.mem_range, List.mem_filter,
    grown.mem_frontier_iff]
  constructor
  · intro found
    rcases found with ⟨depth, _, ⟨deep, refused⟩, accepted⟩
    exact ⟨deep.is_below, accepted, refused⟩
  · intro found
    rcases found with ⟨below, accepted, refused⟩
    rcases below.exists_depth with ⟨depth, deep⟩
    have bound := deep.add_le
    exact ⟨depth, by omega, ⟨deep, refused⟩, accepted⟩

end Dendrogram.Grown

section Doubles

variable {classes : NameSet} {dendrogram : Dendrogram Float} {affinity : Affinity Float}
  {threshold : Float}

/-- A leaf is accepted, and a joint whose average is greater than the threshold, which the
not-a-number never is. -/
def Arena.Accepted (arena : Arena Float) (affinity : Affinity Float) (threshold : Float)
    (id : Nat) : Prop :=
  ∃ node, arena.nodes[id]? = some node ∧
    (node.isLeaf = true ∨
      ∃ average, affinity.average? node.classes = some average ∧ threshold < average)

/-- What the module of a node is: without cohesion for a leaf, and with its average for a joint if
that is not infinite. -/
def Node.Makes (affinity : Affinity Float) (module : Module Float) : Node Float → Prop
  | leaf name => module.classes = .singleton name ∧ module.cohesion = none
  | merged _ _ _ classes => module.classes = classes ∧
      ∃ average, affinity.average? classes = some average ∧
        module.cohesion = if average.isInf then none else some average

theorem finite_of_exceeds {average : Float} (above : threshold < average)
    (infinite : average.isInf = false) : average.isFinite = true := by
  rw [float_lt_iff] at above
  change average.toModel.unpack.isInf = false at infinite
  change average.toModel.unpack.isFinite = true
  cases value : average.toModel.unpack with
  | notANumber =>
      rw [value, lt_of_not_number (.inr rfl)] at above
      cases above
  | infinity sign =>
      rw [value] at infinite
      cases infinite
  | zero sign => rfl
  | finite sign significand exponent positive => rfl

theorem infinite_of_not_finite {average : Float} (infinite : average.isInf = true) :
    average.isFinite = false := by
  change average.toModel.unpack.isInf = true at infinite
  change average.toModel.unpack.isFinite = false
  cases value : average.toModel.unpack with
  | infinity sign => rfl
  | notANumber | zero | finite =>
      rw [value] at infinite
      cases infinite

theorem Dendrogram.Grown.exists_average (grown : dendrogram.Grown classes)
    (affinity : Affinity Float) {id left right : Nat} {coupling : Float} {joined : NameSet}
    (stored : dendrogram.nodes[id]? = some (.merged left right coupling joined)) :
    ∃ average, affinity.average? joined = some average := by
  have several := grown.two_le_size (Arena.lt_of_stored stored) (grown.joint_of_stored stored)
  rw [Arena.classes_at_stored stored] at several
  exact ⟨_, if_neg (Nat.not_le_of_lt several)⟩

section Grown

variable (grown : dendrogram.Grown classes)

include grown

theorem Node.makes_of_module {id : Nat} {node : Node Float} {module : Module Float}
    (stored : dendrogram.nodes[id]? = some node)
    (accepted : node.module? affinity threshold = some module) : node.Makes affinity module := by
  cases node with
  | leaf name =>
      cases accepted
      exact ⟨rfl, rfl⟩
  | merged left right coupling joined =>
      rcases grown.exists_average affinity stored with ⟨average, found⟩
      simp only [Node.module?, found] at accepted
      split at accepted
      · next above =>
          cases accepted
          refine ⟨rfl, average, found, ?_⟩
          cases infinite : average.isInf with
          | true =>
              have notFinite : Weight.isFinite average = false := infinite_of_not_finite infinite
              simp [notFinite]
          | false =>
              have finite : Weight.isFinite average = true :=
                finite_of_exceeds (of_decide_eq_true above) infinite
              simp [finite]
      · cases accepted

theorem Dendrogram.Grown.accepted_iff {id : Nat} :
    dendrogram.Accepted affinity threshold id ↔
      (dendrogram.moduleAt? affinity threshold id).isSome = true := by
  rw [Arena.Accepted, Arena.moduleAt?]
  cases stored : dendrogram.nodes[id]? with
  | none => simp
  | some node =>
      cases node with
      | leaf name => simp [Node.isLeaf, Node.module?]
      | merged left right coupling joined =>
          rcases grown.exists_average affinity stored with ⟨average, found⟩
          by_cases above : threshold < average
          · simp [Node.isLeaf, Node.module?, Node.classes, found, Weight.exceeds, above]
          · simp [Node.isLeaf, Node.module?, Node.classes, found, Weight.exceeds, above]

end Grown

/-- The places of the accepted nodes that have no accepted node above them, by depth and from left to
right, and a module for each. -/
structure Dendrogram.ListsTopmost (dendrogram : Dendrogram Float) (affinity : Affinity Float)
    (start : Nat) (threshold : Float) (places : List Nat) (modules : List (Module Float)) :
    Prop where
  place_iff : ∀ id, id ∈ places ↔
    dendrogram.Below start id ∧ dendrogram.Accepted affinity threshold id ∧
      ∀ above, dendrogram.Below start above → dendrogram.Below above id → above ≠ id →
        ¬dendrogram.Accepted affinity threshold above
  distinct : places.Nodup
  ordered : places.Pairwise (dendrogram.BeforeInLevels start)
  one_depth : ∀ id, dendrogram.Below start id → ∃! depth, dendrogram.AtDepth start depth id
  one_for_one : List.Forall₂
    (fun id module => ∃ node, dendrogram.nodes[id]? = some node ∧ node.Makes affinity module)
    places modules

theorem Dendrogram.Grown.lists_topmost (grown : dendrogram.Grown classes)
    (affinity : Affinity Float) (start : Nat) (threshold : Float) :
    dendrogram.ListsTopmost affinity start threshold
      (dendrogram.topmostPlaces affinity threshold start)
      (dendrogram.cut affinity threshold [start]) where
  place_iff id := by
    rw [grown.mem_topmost_places_iff]
    simp only [grown.accepted_iff, Bool.not_eq_true, Option.isSome_eq_false_iff,
      Option.isNone_iff_eq_none]
  distinct := by
    apply (dendrogram.topmost_places_ordered affinity threshold start).imp
    intro id other before same
    rw [same] at before
    exact grown.not_before_itself before
  ordered := dendrogram.topmost_places_ordered affinity threshold start
  one_depth id below := by
    rcases below.exists_depth with ⟨depth, deep⟩
    exact ⟨depth, deep, fun other otherDeep => grown.depth_unique otherDeep deep⟩
  one_for_one := by
    have modules := dendrogram.modules_of_topmost affinity threshold start
    rw [← List.forall₂_eq_eq_eq, List.forall₂_map_left_iff, List.forall₂_map_right_iff] at modules
    apply modules.flip.imp
    intro id module found
    rcases Option.bind_eq_some_iff.mp found.symm with ⟨node, stored, accepted⟩
    exact ⟨node, stored, Node.makes_of_module grown stored accepted⟩

end Doubles

/-- A cut lists the accepted nodes without an accepted node above them, level by level and each level
from left to right, whatever the affinities are. -/
theorem cut_lists_topmost {graph : CouplingGraph Float} {dendrogram : Dendrogram Float}
    (clustered : graph.cluster? = some dendrogram) (affinity : Affinity Float) (start : Nat)
    {threshold : Float} (finite : threshold.isFinite = true) :
    ∃ partition places, dendrogram.partitionFrom affinity start threshold = .ok partition ∧
      dendrogram.ListsTopmost affinity start threshold places partition.modules :=
  ⟨_, _, if_pos finite, (cluster_grown clustered).lists_topmost affinity start threshold⟩

theorem call_chain_lists_topmost : ∃ dendrogram partition places,
    (CouplingGraph.ofCalls .standard callChain).cluster? = some dendrogram ∧
    dendrogram.partitionFrom (Affinity.ofGraph (CouplingGraph.ofCalls .standard callChain))
      6 0.25 = .ok partition ∧
    dendrogram.ListsTopmost (Affinity.ofGraph (CouplingGraph.ofCalls .standard callChain)) 6 0.25
      places partition.modules ∧ partition.modules.length = 3 := by
  have computed : (CouplingGraph.ofCalls .standard callChain).cluster?.any fun dendrogram =>
      ((dendrogram.partitionFrom (Affinity.ofGraph (CouplingGraph.ofCalls .standard callChain))
        6 0.25).toOption.map fun partition => partition.modules.length) = some 3 := by
    decide +kernel
  have finite : (0.25 : Float).isFinite = true := by decide +kernel
  obtain ⟨dendrogram, clustered, checked⟩ := (Option.any_eq_true _ _).mp computed
  rw [decide_eq_true_eq] at checked
  obtain ⟨partition, places, found, topmost⟩ := cut_lists_topmost clustered
    (Affinity.ofGraph (CouplingGraph.ofCalls .standard callChain)) 6 finite
  rw [found] at checked
  exact ⟨dendrogram, partition, places, clustered, found, topmost, Option.some.inj checked⟩

end Cohesion
