import Mathlib.Combinatorics.SimpleGraph.Connectivity.Connected
import Mathlib.SetTheory.Cardinal.Finite
import Cohesion.Proofs.Clustering.Crossings
import Cohesion.Proofs.Clustering.Frontier
import Cohesion.Proofs.Clustering.Merges
import Cohesion.Proofs.Coupling.Nonnegative

/-!
# Components are completed first

Classes with a positive affinity are neighbours in an undirected graph. While one of its components
is spread over several active nodes, two of them have a positive coupling, and the greedy choice is
a positive one within a component. When every component is a node of its own, nothing is left that
couples two nodes.
-/

namespace Cohesion

variable {W : Type}

namespace CouplingGraph

abbrev Class (graph : CouplingGraph W) : Type := {name : String // name ∈ graph.classes}

instance (graph : CouplingGraph W) : Finite graph.Class :=
  (List.finite_toSet graph.classes.names).to_subtype

theorem card_class (graph : CouplingGraph W) : Nat.card graph.Class = graph.classes.size := by
  have listed : Nat.card graph.Class = graph.classes.names.toFinset.card :=
    Nat.subtype_card _ fun name => List.mem_toFinset
  rw [listed, List.toFinset_card_of_nodup (NameSet.names_nodup _)]
  rfl

variable [Weight W]

/-- The undirected graph that joins two different classes when their affinity is positive. -/
def coupled (graph : CouplingGraph W) : SimpleGraph graph.Class where
  Adj one other := one ≠ other ∧
    Weight.Positive ((Affinity.ofGraph graph).weight one.val other.val)
  symm := ⟨fun one other adjacent =>
    ⟨adjacent.1.symm, Affinity.weight_symm graph one.val other.val ▸ adjacent.2⟩⟩
  loopless := ⟨fun _ adjacent => adjacent.1 rfl⟩

abbrev Component (graph : CouplingGraph W) : Type := graph.coupled.ConnectedComponent

theorem card_component_le (graph : CouplingGraph W) :
    Nat.card graph.Component ≤ graph.classes.size := by
  rw [← graph.card_class]
  exact Nat.card_le_card_of_surjective graph.coupled.connectedComponentMk Quot.mk_surjective

theorem card_component_pos {graph : CouplingGraph W} (nonempty : graph.classes ≠ ∅) :
    0 < Nat.card graph.Component := by
  have some_component : Nonempty graph.Component := by
    by_contra none_left
    apply nonempty
    ext name
    apply iff_of_false _ NameSet.not_mem_empty
    intro listed
    exact none_left ⟨graph.coupled.connectedComponentMk ⟨name, listed⟩⟩
  exact Nat.card_pos

def InComponent (graph : CouplingGraph W) (component : graph.Component) (name : String) : Prop :=
  ∃ listed : name ∈ graph.classes, graph.coupled.connectedComponentMk ⟨name, listed⟩ = component

theorem numeric_of_nonnegative [OrderedWeight W] [ConicalWeight W] {graph : CouplingGraph W}
    (nonnegative : graph.NonnegativeWeights) (arena : Arena W) (id : Nat) :
    arena.NumericAt (Affinity.ofGraph graph) id :=
  fun _ _ _ _ _ => (nonnegative_between nonnegative _ _).1

end CouplingGraph

variable [Weight W]

namespace Dendrogram

def Within (graph : CouplingGraph W) (dendrogram : Dendrogram W) (component : graph.Component)
    (id : Nat) : Prop :=
  ∀ name ∈ dendrogram.classesAt id, graph.InComponent component name

/-- Before the place no active node has classes of two components. -/
def ApartAt (graph : CouplingGraph W) (dendrogram : Dendrogram W) (place : Nat) : Prop :=
  ∀ id, dendrogram.ActiveBefore place id → ∃ component, dendrogram.Within graph component id

/-- Before the place every active node has whole components only. -/
def WholeAt (graph : CouplingGraph W) (dendrogram : Dendrogram W) (place : Nat) : Prop :=
  ∀ id, dendrogram.ActiveBefore place id → ∀ first second : graph.Class,
    first.val ∈ dendrogram.classesAt id → graph.coupled.Reachable first second →
      second.val ∈ dendrogram.classesAt id

end Dendrogram

section Grown

variable {graph : CouplingGraph W} {dendrogram : Dendrogram W}
  (grown : dendrogram.Grown graph.classes)

include grown

theorem apart_at_leaves : dendrogram.ApartAt graph graph.classes.size := by
  intro id active
  have isLeaf := (grown.active_at_leaves id).mp active
  have stored := grown.leaf_at id isLeaf
  have inside : graph.classes.nameAt id ∈ dendrogram.classesAt id := by
    rw [Arena.classes_at_stored stored]
    exact NameSet.mem_singleton.mpr rfl
  have listed := grown.mem_classes_of_node (Arena.lt_of_stored stored) inside
  apply Exists.intro (graph.coupled.connectedComponentMk ⟨_, listed⟩)
  intro name member
  rw [Arena.classes_at_stored stored] at member
  have same : name = graph.classes.nameAt id := NameSet.mem_singleton.mp member
  subst same
  exact ⟨listed, rfl⟩

variable {place : Nat} (behindLeaves : graph.classes.size ≤ place)
  (bound : place ≤ dendrogram.nodes.size)

include behindLeaves bound

/-- A walk from a class of an active node to one outside crosses over to another active node. -/
theorem exists_neighbour {one : Nat} {first second : graph.Class}
    (inside : first.val ∈ dendrogram.classesAt one)
    (outside : second.val ∉ dendrogram.classesAt one)
    (reachable : graph.coupled.Reachable first second) :
    ∃ other, dendrogram.ActiveBefore place other ∧ other ≠ one ∧
      ∃ row ∈ dendrogram.classesAt one, ∃ column ∈ dendrogram.classesAt other,
        Weight.Positive ((Affinity.ofGraph graph).weight row column) := by
  obtain ⟨walk⟩ := reachable
  obtain ⟨dart, _, starts, ends⟩ :=
    walk.exists_boundary_dart {name | name.val ∈ dendrogram.classesAt one} inside outside
  obtain ⟨other, otherActive, inOther⟩ :=
    grown.exists_active behindLeaves bound dart.snd.property
  apply Exists.intro other
  apply And.intro otherActive
  apply And.intro
  · intro same
    exact ends (same ▸ inOther)
  · exact ⟨_, starts, _, inOther, dart.adj.2⟩

/-- Every component has an active node, as each of its classes is in one. -/
theorem exists_components (apart : dendrogram.ApartAt graph place) :
    ∃ component : dendrogram.activeNodes place → graph.Component,
      (∀ node, dendrogram.Within graph (component node) node) ∧ Function.Surjective component := by
  have located : ∀ node : dendrogram.activeNodes place,
      ∃ component, dendrogram.Within graph component node :=
    fun node => apart node (Dendrogram.mem_active_nodes.mp node.property)
  choose component within using located
  apply Exists.intro component
  apply And.intro within
  intro wanted
  obtain ⟨⟨name, listed⟩, rfl⟩ := wanted.exists_rep
  obtain ⟨id, active, inside⟩ := grown.exists_active behindLeaves bound listed
  have member := Dendrogram.mem_active_nodes.mpr active
  obtain ⟨_, found⟩ := within ⟨id, member⟩ name inside
  exact ⟨⟨id, member⟩, found.symm⟩

/-- With more active nodes than components some component is spread over two of them. -/
theorem exists_spread (apart : dendrogram.ApartAt graph place)
    (many : place + Nat.card graph.Component < 2 * graph.classes.size) :
    ∃ one other component, dendrogram.ActiveBefore place one ∧
      dendrogram.ActiveBefore place other ∧ one ≠ other ∧
      dendrogram.Within graph component one ∧ dendrogram.Within graph component other := by
  obtain ⟨component, within, _⟩ := exists_components grown behindLeaves bound apart
  have notInjective : ¬Function.Injective component := by
    intro injective
    have fewer := Nat.card_le_card_of_injective component injective
    have count := grown.card_active_nodes behindLeaves bound
    rw [Nat.card_eq_finsetCard] at fewer
    omega
  rw [Function.not_injective_iff] at notInjective
  obtain ⟨one, other, same, differs⟩ := notInjective
  exact ⟨one, other, component one, Dendrogram.mem_active_nodes.mp one.property,
    Dendrogram.mem_active_nodes.mp other.property, fun equal => differs (Subtype.ext equal),
    within one, same ▸ within other⟩

theorem whole_of_few (apart : dendrogram.ApartAt graph place)
    (few : 2 * graph.classes.size ≤ place + Nat.card graph.Component) :
    dendrogram.WholeAt graph place := by
  obtain ⟨component, within, onto⟩ := exists_components grown behindLeaves bound apart
  have count := grown.card_active_nodes behindLeaves bound
  have notMore : Nat.card (dendrogram.activeNodes place) ≤ Nat.card graph.Component := by
    rw [Nat.card_eq_finsetCard]
    omega
  have bijective := onto.bijective_of_nat_card_le notMore
  intro id active first second inside reachable
  obtain ⟨other, otherActive, inOther⟩ :=
    grown.exists_active behindLeaves bound second.property
  have member := Dendrogram.mem_active_nodes.mpr active
  have otherMember := Dendrogram.mem_active_nodes.mpr otherActive
  obtain ⟨_, firstComponent⟩ := within ⟨id, member⟩ first.val inside
  obtain ⟨_, secondComponent⟩ := within ⟨other, otherMember⟩ second.val inOther
  have same : component ⟨id, member⟩ = component ⟨other, otherMember⟩ := by
    rw [← firstComponent, ← secondComponent]
    exact SimpleGraph.ConnectedComponent.sound reachable
  have sameNode : id = other := congrArg Subtype.val (bijective.injective same)
  exact sameNode ▸ inOther

end Grown

section Rounds

variable {graph : CouplingGraph W} {dendrogram : Dendrogram W}
  {place left right : Nat} {coupling : W} (joint : dendrogram.Joint place left right coupling)

include joint

theorem adjacent_of_joint {row column : String} (inLeft : row ∈ dendrogram.classesAt left)
    (inRight : column ∈ dendrogram.classesAt right) (rowListed : row ∈ graph.classes)
    (columnListed : column ∈ graph.classes)
    (positive : Weight.Positive ((Affinity.ofGraph graph).weight row column)) :
    graph.coupled.Adj ⟨row, rowListed⟩ ⟨column, columnListed⟩ := by
  apply And.intro _ positive
  intro same
  have equal : row = column := congrArg Subtype.val same
  exact joint.disjoint row inLeft (equal ▸ inRight)

theorem apart_succ (apart : dendrogram.ApartAt graph place) {component : graph.Component}
    (withinLeft : dendrogram.Within graph component left)
    (withinRight : dendrogram.Within graph component right) :
    dendrogram.ApartAt graph (place + 1) := by
  intro id active
  rcases (joint.active_succ id).mp active with same | ⟨earlier, _⟩
  · apply Exists.intro component
    intro name inside
    rw [same, joint.classes_at, NameSet.mem_union] at inside
    exact inside.elim (withinLeft name) (withinRight name)
  · exact apart id earlier

theorem whole_succ (whole : dendrogram.WholeAt graph place) :
    dendrogram.WholeAt graph (place + 1) := by
  intro id active first second inside reachable
  rcases (joint.active_succ id).mp active with same | ⟨earlier, _⟩
  · rw [same, joint.classes_at, NameSet.mem_union] at inside ⊢
    rcases inside with inLeft | inRight
    · exact .inl (whole left joint.left_active first second inLeft reachable)
    · exact .inr (whole right joint.right_active first second inRight reachable)
  · exact whole id earlier first second inside reachable

end Rounds

section Clustered

variable [OrderedWeight W] [ConicalWeight W] {graph : CouplingGraph W} {dendrogram : Dendrogram W}
  (clustered : graph.cluster? = some dendrogram) (nonnegative : graph.NonnegativeWeights)
  {place left right : Nat} {coupling : W} {joined : NameSet}
  (stored : dendrogram.nodes[place]? = some (.merged left right coupling joined))

include clustered nonnegative stored

/-- The greedy choice is positive as soon as some pair of active nodes is. -/
theorem positive_of_pair {one other : Nat} (oneActive : dendrogram.ActiveBefore place one)
    (otherActive : dendrogram.ActiveBefore place other)
    (smaller : dendrogram.Smaller one other) {row column : String}
    (isRow : row ∈ dendrogram.classesAt one) (isColumn : column ∈ dendrogram.classesAt other)
    (positive : Weight.Positive ((Affinity.ofGraph graph).weight row column)) :
    Weight.Positive coupling := by
  have greedy := merged_greedy clustered stored
    (CouplingGraph.numeric_of_nonnegative nonnegative _ _)
  have pairPositive : Weight.Positive
      (dendrogram.couplingOf (Affinity.ofGraph graph) one other) :=
    (CouplingGraph.positive_between nonnegative _ _).mpr ⟨row, isRow, column, isColumn, positive⟩
  have notExceeded := greedy.strongest one other oneActive otherActive smaller
  have number : OrderedWeight.isNumber coupling := by
    rw [greedy.coupling_eq]
    exact (CouplingGraph.nonnegative_between nonnegative _ _).1
  by_contra notPositive
  rw [Weight.Positive, Bool.not_eq_true] at notPositive
  rw [OrderedWeight.exceeds_of_not_exceeds number pairPositive notPositive] at notExceeded
  contradiction

theorem positive_of_spread (bound : place < dendrogram.nodes.size) {one other : Nat}
    {component : graph.Component} (oneActive : dendrogram.ActiveBefore place one)
    (otherActive : dendrogram.ActiveBefore place other) (differs : one ≠ other)
    (withinOne : dendrogram.Within graph component one)
    (withinOther : dendrogram.Within graph component other) : Weight.Positive coupling := by
  have grown := cluster_grown clustered
  have behindLeaves := grown.behind_leaves stored
  have greedy := merged_greedy clustered stored
    (CouplingGraph.numeric_of_nonnegative nonnegative _ _)
  obtain ⟨first, inOne⟩ := grown.exists_class (Nat.lt_trans oneActive.1 bound)
  obtain ⟨second, inOther⟩ := grown.exists_class (Nat.lt_trans otherActive.1 bound)
  obtain ⟨firstListed, firstComponent⟩ := withinOne first inOne
  obtain ⟨secondListed, secondComponent⟩ := withinOther second inOther
  have reachable : graph.coupled.Reachable ⟨first, firstListed⟩ ⟨second, secondListed⟩ :=
    SimpleGraph.ConnectedComponent.exact (firstComponent.trans secondComponent.symm)
  have outside : second ∉ dendrogram.classesAt one := by
    intro inside
    exact differs (grown.active_unique (Nat.le_of_lt bound) oneActive otherActive inside inOther)
  obtain ⟨next, nextActive, notOne, row, isRow, column, isColumn, positive⟩ :=
    exists_neighbour grown behindLeaves (Nat.le_of_lt bound) inOne outside reachable
  rcases greedy.comparable one next oneActive nextActive notOne.symm with smaller | smaller
  · exact positive_of_pair clustered nonnegative stored oneActive nextActive smaller isRow isColumn
      positive
  · rw [Affinity.weight_symm] at positive
    exact positive_of_pair clustered nonnegative stored nextActive oneActive smaller isColumn isRow
      positive

end Clustered

section Joint

variable [OrderedWeight W] [ConicalWeight W] {graph : CouplingGraph W} {dendrogram : Dendrogram W}
  (clustered : graph.cluster? = some dendrogram) (nonnegative : graph.NonnegativeWeights)
  {place left right : Nat} {coupling : W} (joint : dendrogram.Joint place left right coupling)

include clustered nonnegative joint

/-- A positive coupling comes from an edge between the two nodes. -/
theorem within_of_positive (apart : dendrogram.ApartAt graph place)
    (positive : Weight.Positive coupling) :
    ∃ component, dendrogram.Within graph component left ∧
      dendrogram.Within graph component right := by
  rw [coupling_of_merged clustered joint.stored, Arena.couplingOf,
    CouplingGraph.positive_between nonnegative] at positive
  obtain ⟨row, inLeft, column, inRight, edge⟩ := positive
  obtain ⟨component, withinLeft⟩ := apart left joint.left_active
  obtain ⟨other, withinRight⟩ := apart right joint.right_active
  obtain ⟨rowListed, rowComponent⟩ := withinLeft row inLeft
  obtain ⟨columnListed, columnComponent⟩ := withinRight column inRight
  have adjacent := adjacent_of_joint joint inLeft inRight rowListed columnListed edge
  have same : component = other := by
    rw [← rowComponent, ← columnComponent]
    exact SimpleGraph.ConnectedComponent.sound adjacent.reachable
  exact ⟨component, withinLeft, same ▸ withinRight⟩

theorem coupling_zero_of_whole (whole : dendrogram.WholeAt graph place)
    (bound : place < dendrogram.nodes.size) : coupling = Weight.zero := by
  have grown := cluster_grown clustered
  rw [coupling_of_merged clustered joint.stored, Arena.couplingOf]
  apply CouplingGraph.between_eq_zero nonnegative
  intro row inLeft column inRight positive
  have rowListed := grown.mem_classes_of_node (Nat.lt_trans joint.left_active.1 bound) inLeft
  have columnListed := grown.mem_classes_of_node (Nat.lt_trans joint.right_active.1 bound) inRight
  have adjacent := adjacent_of_joint joint inLeft inRight rowListed columnListed positive
  exact joint.disjoint column
    (whole left joint.left_active _ ⟨column, columnListed⟩ inLeft adjacent.reachable) inRight

end Joint

section Run

variable [OrderedWeight W] [ConicalWeight W] {graph : CouplingGraph W} {dendrogram : Dendrogram W}
  (clustered : graph.cluster? = some dendrogram) (nonnegative : graph.NonnegativeWeights)

include clustered nonnegative

/-- While there are more active nodes than components the greedy choice stays in a component. -/
theorem round_within_component {place : Nat} (behindLeaves : graph.classes.size ≤ place)
    (bound : place < dendrogram.nodes.size) (apart : dendrogram.ApartAt graph place)
    (many : place + Nat.card graph.Component < 2 * graph.classes.size) {left right : Nat}
    {coupling : W} (joint : dendrogram.Joint place left right coupling) :
    Weight.Positive coupling ∧ ∃ component, dendrogram.Within graph component left ∧
      dendrogram.Within graph component right := by
  have grown := cluster_grown clustered
  obtain ⟨one, other, component, oneActive, otherActive, differs, withinOne, withinOther⟩ :=
    exists_spread grown behindLeaves (Nat.le_of_lt bound) apart many
  have positive := positive_of_spread clustered nonnegative joint.stored bound oneActive
    otherActive differs withinOne withinOther
  exact ⟨positive, within_of_positive clustered nonnegative joint apart positive⟩

theorem apart_at {place : Nat} (behindLeaves : graph.classes.size ≤ place)
    (many : place + Nat.card graph.Component ≤ 2 * graph.classes.size)
    (bound : place ≤ dendrogram.nodes.size) : dendrogram.ApartAt graph place := by
  have grown := cluster_grown clustered
  induction place, behindLeaves using Nat.le_induction with
  | base => exact apart_at_leaves grown
  | succ place behindLeaves induction =>
      have apart := induction (by omega) (by omega)
      obtain ⟨left, right, coupling, joint⟩ := grown.joint_at place behindLeaves bound
      obtain ⟨_, component, withinLeft, withinRight⟩ :=
        round_within_component clustered nonnegative behindLeaves bound apart (by omega) joint
      exact apart_succ joint apart withinLeft withinRight

/-- Once there are as few active nodes as components, no component is spread over two of them. -/
theorem whole_at {place : Nat}
    (few : 2 * graph.classes.size - Nat.card graph.Component ≤ place)
    (bound : place ≤ dendrogram.nodes.size) : dendrogram.WholeAt graph place := by
  have grown := cluster_grown clustered
  have notMore := graph.card_component_le
  induction place, few using Nat.le_induction with
  | base =>
      have apart := apart_at clustered nonnegative (by omega) (by omega) bound
      exact whole_of_few grown (by omega) bound apart (by omega)
  | succ place few induction =>
      have whole := induction (Nat.le_of_succ_le bound)
      obtain ⟨left, right, coupling, joint⟩ := grown.joint_at place (by omega) bound
      exact whole_succ joint whole

/-- The active node that has the classes of a component when all components are complete. -/
theorem exists_node_of_component (component : graph.Component) :
    ∃ id < dendrogram.nodes.size, ∀ name,
      name ∈ dendrogram.classesAt id ↔ graph.InComponent component name := by
  have grown := cluster_grown clustered
  have count := grown.count
  have some_component : Nonempty graph.Component := ⟨component⟩
  have atLeast : 0 < Nat.card graph.Component := Nat.card_pos
  have notMore := graph.card_component_le
  obtain ⟨place, isPlace⟩ : ∃ place, place + Nat.card graph.Component = 2 * graph.classes.size :=
    ⟨2 * graph.classes.size - Nat.card graph.Component, by omega⟩
  have bound : place ≤ dendrogram.nodes.size := by omega
  have apart := apart_at clustered nonnegative (by omega) (by omega) bound
  have whole := whole_at clustered nonnegative (by omega) bound
  obtain ⟨node, within, onto⟩ := exists_components grown (by omega) bound apart
  obtain ⟨⟨id, member⟩, rfl⟩ := onto component
  have active := Dendrogram.mem_active_nodes.mp member
  have idBound := Nat.lt_of_lt_of_le active.1 bound
  apply Exists.intro id
  apply And.intro idBound
  intro name
  constructor
  · exact within ⟨id, member⟩ name
  · intro ⟨listed, isComponent⟩
    obtain ⟨other, inside⟩ := grown.exists_class idBound
    obtain ⟨otherListed, otherComponent⟩ := within ⟨id, member⟩ other inside
    have reachable : graph.coupled.Reachable ⟨other, otherListed⟩ ⟨name, listed⟩ :=
      SimpleGraph.ConnectedComponent.exact (otherComponent.trans isComponent.symm)
    exact whole id active _ _ inside reachable

end Run

/-- A dendrogram that first joins what belongs to one component, always at a positive coupling, and
then the components, at no coupling at all. -/
structure Dendrogram.CompletesComponents (graph : CouplingGraph W) (dendrogram : Dendrogram W) :
    Prop where
  component_count : 1 ≤ Nat.card graph.Component ∧ Nat.card graph.Component ≤ graph.classes.size
  merge_count : dendrogram.merges.length = graph.classes.size - 1
  first_merges : ∀ number id, dendrogram.merges[number]? = some id →
    number < graph.classes.size - Nat.card graph.Component →
    ∃ left right coupling joined component,
      dendrogram.nodes[id]? = some (.merged left right coupling joined) ∧
        Weight.Positive coupling ∧ dendrogram.Within graph component left ∧
        dendrogram.Within graph component right
  last_merges : ∀ number id, dendrogram.merges[number]? = some id →
    graph.classes.size - Nat.card graph.Component ≤ number →
    ∃ left right joined,
      dendrogram.nodes[id]? = some (.merged left right Weight.zero joined)
  whole : ∀ component : graph.Component, ∃! id, id < dendrogram.nodeCount ∧
    ∀ name, name ∈ dendrogram.classesAt id ↔ graph.InComponent component name

/-- With finite nonnegative weights, exact ones or doubles, components are completed before they are
joined. -/
theorem components_completed_first [OrderedWeight W] [ConicalWeight W] {graph : CouplingGraph W}
    (nonempty : graph.classes ≠ ∅) (nonnegative : graph.NonnegativeWeights) :
    ∃ dendrogram, graph.cluster? = some dendrogram ∧ dendrogram.CompletesComponents graph := by
  obtain ⟨dendrogram, clustered⟩ := CouplingGraph.exists_dendrogram nonempty
  have grown := cluster_grown clustered
  apply Exists.intro dendrogram
  apply And.intro clustered
  have count := grown.count
  have some_component := CouplingGraph.card_component_pos nonempty
  have notMore := graph.card_component_le
  have placed : ∀ number id, dendrogram.merges[number]? = some id →
      id = graph.classes.size + number ∧ id < dendrogram.nodes.size := by
    intro number id listed
    rw [grown.merges_eq] at listed
    obtain ⟨inside, value⟩ := List.getElem?_eq_some_iff.mp listed
    rw [List.length_range'] at inside
    rw [List.getElem_range'] at value
    omega
  constructor
  case component_count => exact ⟨some_component, notMore⟩
  case merge_count => rw [grown.merges_eq, List.length_range']
  case first_merges =>
    intro number id listed early
    obtain ⟨isPlace, bound⟩ := placed number id listed
    obtain ⟨left, right, coupling, joint⟩ := grown.joint_at id (by omega) bound
    have apart := apart_at clustered nonnegative (by omega) (by omega) (Nat.le_of_lt bound)
    obtain ⟨positive, component, within⟩ := round_within_component clustered nonnegative
      (by omega) bound apart (by omega) joint
    exact ⟨left, right, coupling, _, component, joint.stored, positive, within⟩
  case last_merges =>
    intro number id listed late
    obtain ⟨isPlace, bound⟩ := placed number id listed
    obtain ⟨left, right, coupling, joint⟩ := grown.joint_at id (by omega) bound
    have whole := whole_at clustered nonnegative (by omega) (Nat.le_of_lt bound)
    have none_left := coupling_zero_of_whole clustered nonnegative joint whole bound
    exact ⟨left, right, _, none_left ▸ joint.stored⟩
  case whole =>
    intro component
    obtain ⟨id, bound, classes⟩ := exists_node_of_component clustered nonnegative component
    apply Exists.intro id
    apply And.intro ⟨bound, classes⟩
    intro other ⟨otherBound, otherClasses⟩
    apply grown.classes_at_injective otherBound bound
    ext name
    rw [otherClasses, classes]

/-- Two pairs of classes, one coupled by the least positive double, with edges of no weight. -/
def twoIslands : CouplingGraph Float :=
  .ofEdges [⟨"a", "b", 0.5⟩, ⟨"b", "b", 1.0⟩, ⟨"c", "d", Float.ofBits 1⟩, ⟨"d", "a", -0.0⟩]

theorem two_islands_completed_first : ∃ dendrogram, twoIslands.cluster? = some dendrogram ∧
    dendrogram.nodes[5]? = some (.merged 2 3 (Float.ofBits 1) (.ofList ["c", "d"])) ∧
    dendrogram.nodes[6]? = some (.merged 4 5 0.0 (.ofList ["a", "b", "c", "d"])) ∧
    Nat.card twoIslands.Component = 2 ∧ dendrogram.CompletesComponents twoIslands := by
  have nonnegative : twoIslands.NonnegativeWeights := by
    unfold CouplingGraph.NonnegativeWeights
    decide +kernel
  obtain ⟨dendrogram, clustered, completes⟩ :=
    components_completed_first (by decide +kernel) nonnegative
  have computed : twoIslands.cluster?.all fun dendrogram =>
      decide (dendrogram.nodes[5]? = some (.merged 2 3 (Float.ofBits 1) (.ofList ["c", "d"])) ∧
        dendrogram.nodes[6]? = some (.merged 4 5 0.0 (.ofList ["a", "b", "c", "d"])) ∧
        dendrogram.merges = [4, 5, 6]) := by
    decide +kernel
  rw [clustered, Option.all_some, decide_eq_true_eq] at computed
  obtain ⟨second, third, merges⟩ := computed
  have size : twoIslands.classes.size = 4 := by decide +kernel
  have notAbove : Nat.card twoIslands.Component ≤ 2 := by
    by_contra more
    obtain ⟨left, right, joined, stored⟩ :=
      completes.last_merges 1 5 (by rw [merges]; rfl) (by omega)
    rw [second, Option.some.injEq, Node.merged.injEq] at stored
    exact absurd stored.2.2.1 (by decide +kernel)
  have notBelow : 2 ≤ Nat.card twoIslands.Component := by
    by_contra fewer
    obtain ⟨left, right, coupling, joined, component, stored, positive, _⟩ :=
      completes.first_merges 2 6 (by rw [merges]; rfl) (by omega)
    rw [third, Option.some.injEq, Node.merged.injEq] at stored
    rw [← stored.2.2.1, Weight.Positive] at positive
    exact absurd positive (by decide +kernel)
  exact ⟨dendrogram, clustered, second, third, by omega, completes⟩

end Cohesion
