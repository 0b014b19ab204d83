import Mathlib.Data.Fintype.Card
import Cohesion.Proofs.Partition.Cover
import Cohesion.Proofs.Partition.Locality

/-!
# A higher threshold refines a cut

A node that is accepted at a threshold is accepted at every lower one as well. So a module of a cut
is an accepted node for the lower threshold too, and the lower cut has ended at this node or at one
above it: it holds the module as a part of one of its own.
-/

namespace Cohesion

variable {W : Type}

section Acceptance

variable [Weight W]

/-- A node accepted at a threshold makes the same module at one that is not higher. -/
theorem Node.module_of_lower [OrderedWeight W] {affinity : Affinity W} {low high : W}
    (number : OrderedWeight.isNumber low) (order : Weight.exceeds low high = false)
    {node : Node W} {module : Module W} (accepted : node.module? affinity high = some module) :
    node.module? affinity low = some module := by
  cases node with
  | leaf name => exact accepted
  | merged left right coupling classes =>
      rw [Node.module?] at accepted ⊢
      split at accepted
      · exact accepted
      · next average _ =>
          split at accepted
          · next above =>
              rw [if_pos (OrderedWeight.exceeds_of_not_exceeds number above order)]
              exact accepted
          · cases accepted

/-- A cut has a module around every accepted node below its queue. -/
theorem Dendrogram.Grown.exists_module_around {classes : NameSet} {dendrogram : Dendrogram W}
    (grown : dendrogram.Grown classes) {affinity : Affinity W} {threshold : W} {id : Nat}
    {node : Node W} {module : Module W} (stored : dendrogram.nodes[id]? = some node)
    (accepted : node.module? affinity threshold = some module) {waiting : List Nat}
    (known : ∀ top ∈ waiting, top < dendrogram.nodes.size)
    (reached : ∃ top ∈ waiting, dendrogram.Below top id) :
    ∃ outer ∈ dendrogram.cut affinity threshold waiting,
      ∀ name ∈ module.classes, name ∈ outer.classes := by
  have named := Node.module_classes accepted
  rw [← Arena.classes_at_stored stored] at named
  revert reached
  apply dendrogram.known_queue_induction ?_ ?_ known
  · rintro ⟨_, member, _⟩
    exact absurd member List.not_mem_nil
  · intro top first waiting firstStored rest children reached
    obtain ⟨above, member, below⟩ := reached
    cases decision : first.module? affinity threshold with
    | some outer =>
        rw [Arena.cut_of_accepted firstStored decision]
        rcases List.mem_cons.mp member with same | later
        · subst same
          refine ⟨outer, List.mem_cons_self, fun name inside => ?_⟩
          rw [named] at inside
          rw [Node.module_classes decision, ← Arena.classes_at_stored firstStored]
          exact grown.mem_classes_of_below (Arena.lt_of_stored firstStored) below inside
        · obtain ⟨found, foundMember, around⟩ := rest ⟨above, later, below⟩
          exact ⟨found, List.mem_cons_of_mem _ foundMember, around⟩
    | none =>
        rw [Arena.cut_of_refused firstStored decision]
        apply children
        rcases List.mem_cons.mp member with same | later
        · subst same
          rcases Arena.below_iff.mp below with isTop | ⟨child, isChild, further⟩
          · rw [isTop, firstStored, Option.some.injEq] at stored
            rw [stored, accepted] at decision
            cases decision
          · obtain ⟨parent, parentStored, inside⟩ := isChild
            rw [firstStored, Option.some.injEq] at parentStored
            exact ⟨child, List.mem_append_right _ (parentStored ▸ inside), further⟩
        · exact ⟨above, List.mem_append_left _ later, below⟩

end Acceptance

namespace Partition

/-- A partition whose modules are parts of those of a coarser one. -/
structure Refines (fine coarse : Partition W) : Prop where
  inside : ∀ module ∈ fine.modules, ∃! place : Nat, ∃ outer : Module W,
    coarse.modules[place]? = some outer ∧ ∀ name ∈ module.classes, name ∈ outer.classes
  count_le : coarse.modules.length ≤ fine.modules.length
  remark_stays : ∀ moduleCount limit,
    coarse.diagnostic = some (.tooManyModules moduleCount limit) →
    ∃ more, moduleCount ≤ more ∧ fine.diagnostic = some (.tooManyModules more limit)

/-- More modules among as many classes do not end a remark. -/
theorem diagnose_stays {classCount few many moduleCount limit : Nat} (order : few ≤ many)
    (remarked : diagnose classCount few = some (.tooManyModules moduleCount limit)) :
    ∃ more, moduleCount ≤ more ∧
      diagnose classCount many = some (.tooManyModules more limit) := by
  simp only [diagnose] at remarked ⊢
  split at remarked
  · next exceeded =>
      cases remarked
      exact ⟨many, order, if_pos (Nat.lt_of_lt_of_le exceeded order)⟩
  · cases remarked

section Disjoint

variable {modules : List (Module W)} (disjoint : modules.Pairwise fun first second =>
  ∀ name ∈ first.classes, name ∉ second.classes)

include disjoint

theorem place_unique {first second : Nat} {one other : Module W} {name : String}
    (oneStored : modules[first]? = some one) (otherStored : modules[second]? = some other)
    (inOne : name ∈ one.classes) (inOther : name ∈ other.classes) : first = second := by
  obtain ⟨firstBound, rfl⟩ := List.getElem?_eq_some_iff.mp oneStored
  obtain ⟨secondBound, rfl⟩ := List.getElem?_eq_some_iff.mp otherStored
  have apart := List.pairwise_iff_getElem.mp disjoint
  rcases Nat.lt_trichotomy first second with less | same | greater
  · exact absurd inOther (apart first second firstBound secondBound less name inOne)
  · exact same
  · exact absurd inOne (apart second first secondBound firstBound greater name inOther)

/-- If every class of some disjoint modules is in a part of the module that has it, there are at
least as many parts as modules. -/
theorem length_le_of_parts (nonempty : ∀ outer ∈ modules, ∃ name, name ∈ outer.classes)
    {parts : List (Module W)}
    (covered : ∀ outer ∈ modules, ∀ name ∈ outer.classes, ∃ part ∈ parts, name ∈ part.classes)
    (inside : ∀ part ∈ parts, ∃ outer ∈ modules, ∀ name ∈ part.classes, name ∈ outer.classes) :
    modules.length ≤ parts.length := by
  have whole : ∀ place : Fin parts.length, ∃ outer : Fin modules.length,
      ∀ name ∈ parts[place].classes, name ∈ modules[outer].classes := by
    intro place
    obtain ⟨outer, member, contains⟩ := inside _ (List.getElem_mem place.isLt)
    obtain ⟨number, bound, rfl⟩ := List.mem_iff_getElem.mp member
    exact ⟨⟨number, bound⟩, contains⟩
  choose wholeOf contains using whole
  -- A class of a module lies in a part, and the module around that part is the only one with it.
  have onto : Function.Surjective wholeOf := by
    intro outer
    obtain ⟨name, inOuter⟩ := nonempty _ (List.getElem_mem outer.isLt)
    obtain ⟨part, member, inPart⟩ := covered _ (List.getElem_mem outer.isLt) name inOuter
    obtain ⟨place, bound, rfl⟩ := List.mem_iff_getElem.mp member
    refine ⟨⟨place, bound⟩, Fin.ext ?_⟩
    have inWhole := contains ⟨place, bound⟩ name inPart
    exact place_unique disjoint (List.getElem?_eq_getElem (wholeOf ⟨place, bound⟩).isLt)
      (List.getElem?_eq_getElem outer.isLt) inWhole inOuter
  simpa using Fintype.card_le_of_surjective wholeOf onto

end Disjoint

end Partition

theorem Dendrogram.DividedFrom.refines [Weight W] {dendrogram : Dendrogram W}
    {affinity : Affinity W} {start : Nat} {low high : W} {coarse fine : Partition W}
    (coarseDivided : dendrogram.DividedFrom affinity start low coarse)
    (fineDivided : dendrogram.DividedFrom affinity start high fine)
    (around : ∀ module ∈ fine.modules, ∃ outer ∈ coarse.modules,
      ∀ name ∈ module.classes, name ∈ outer.classes)
    (coarseRemark : coarse.diagnostic =
      Partition.diagnose coarse.classCount coarse.modules.length)
    (fineRemark : fine.diagnostic = Partition.diagnose fine.classCount fine.modules.length) :
    fine.Refines coarse := by
  have some_class : ∀ {threshold : W} {partition : Partition W},
      dendrogram.DividedFrom affinity start threshold partition →
      ∀ module ∈ partition.modules, ∃ name, name ∈ module.classes := by
    intro threshold partition divided module member
    by_contra none_inside
    rw [not_exists] at none_inside
    refine divided.nonempty module member (NameSet.ext fun name => ?_)
    exact ⟨fun inside => absurd inside (none_inside name), fun inside => absurd inside
      NameSet.not_mem_empty⟩
  have count : coarse.modules.length ≤ fine.modules.length := by
    refine Partition.length_le_of_parts coarseDivided.disjoint (some_class coarseDivided) ?_ around
    intro outer member name inside
    exact (fineDivided.union name).mp ((coarseDivided.union name).mpr ⟨outer, member, inside⟩)
  constructor
  case inside =>
    intro module member
    obtain ⟨name, inModule⟩ := some_class fineDivided module member
    obtain ⟨outer, outerMember, contains⟩ := around module member
    obtain ⟨place, stored⟩ := List.mem_iff_getElem?.mp outerMember
    refine ⟨place, ⟨outer, stored, contains⟩, ?_⟩
    rintro other ⟨otherOuter, otherStored, otherContains⟩
    exact Partition.place_unique coarseDivided.disjoint otherStored stored
      (otherContains name inModule) (contains name inModule)
  case count_le => exact count
  case remark_stays =>
    intro moduleCount limit remarked
    rw [coarseRemark, coarseDivided.class_count] at remarked
    rw [fineRemark, fineDivided.class_count]
    exact Partition.diagnose_stays count remarked

/-- A threshold that is not lower gives parts of the same modules, at least as many of them, and
keeps the remark that there are too many. -/
theorem higher_threshold_refines {graph : CouplingGraph Float} {dendrogram : Dendrogram Float}
    (clustered : graph.cluster? = some dendrogram) (affinity : Affinity Float) {start : Nat}
    (inside : start < dendrogram.nodes.size) {low high : Float} (lowFinite : low.isFinite = true)
    (highFinite : high.isFinite = true) (order : low ≤ high) :
    ∃ coarse fine, dendrogram.partitionFrom affinity start low = .ok coarse ∧
      dendrogram.partitionFrom affinity start high = .ok fine ∧ fine.Refines coarse := by
  have grown := cluster_grown clustered
  have notAbove : Weight.exceeds low high = false :=
    decide_eq_false ((float_not_lt_iff (is_number_of_finite highFinite)
      (is_number_of_finite lowFinite)).mpr order)
  refine ⟨_, _, if_pos lowFinite, if_pos highFinite, ?_⟩
  refine (grown.divided_from affinity inside low rfl rfl).refines
    (grown.divided_from affinity inside high rfl rfl) ?_ rfl rfl
  intro module member
  obtain ⟨top, isStart, id, node, below, stored, accepted⟩ := Arena.accepted_of_mem_cut member
  refine grown.exists_module_around stored ?_ ?_ ⟨top, isStart, below⟩
  · exact Node.module_of_lower (is_number_of_finite lowFinite) notAbove accepted
  · exact fun id member => List.mem_singleton.mp member ▸ inside

theorem call_chain_is_refined : ∃ dendrogram coarse fine,
    (CouplingGraph.ofCalls .standard callChain).cluster? = some dendrogram ∧
    dendrogram.partitionFrom (Affinity.ofGraph (CouplingGraph.ofCalls .standard callChain))
      6 0.25 = .ok coarse ∧
    dendrogram.partitionFrom (Affinity.ofGraph (CouplingGraph.ofCalls .standard callChain))
      6 0.5 = .ok fine ∧
    coarse.diagnostic = some (.tooManyModules 3 2) ∧ fine.Refines coarse := by
  have computed : (CouplingGraph.ofCalls .standard callChain).cluster?.any fun dendrogram =>
      decide (6 < dendrogram.nodes.size) &&
        ((dendrogram.partitionFrom (Affinity.ofGraph (CouplingGraph.ofCalls .standard callChain))
          6 0.25).toOption.bind Partition.diagnostic) = some (.tooManyModules 3 2) := by
    decide +kernel
  obtain ⟨dendrogram, clustered, checked⟩ := (Option.any_eq_true _ _).mp computed
  rw [Bool.and_eq_true, decide_eq_true_eq, decide_eq_true_eq] at checked
  obtain ⟨inside, remarked⟩ := checked
  have ascending : (0.25 : Float) ≤ 0.5 := by decide +kernel
  obtain ⟨coarse, fine, coarseFound, fineFound, refines⟩ := higher_threshold_refines clustered
    (Affinity.ofGraph (CouplingGraph.ofCalls .standard callChain)) inside (by decide +kernel)
    (by decide +kernel) ascending
  rw [coarseFound] at remarked
  exact ⟨dendrogram, coarse, fine, clustered, coarseFound, fineFound, remarked, refines⟩

end Cohesion
