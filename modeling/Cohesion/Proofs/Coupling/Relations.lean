import Mathlib.Data.Finset.Card
import Mathlib.Data.Finset.Union
import Cohesion.Coupling.Shares
import Cohesion.Proofs.Names.Lookup
import Cohesion.Proofs.Pairs

/-!
# The relations of a call graph

The relations are the pairs of a caller and a callee that is looked up under it. They are listed in
order and each one once. Those that cross a class boundary are a set of pairs of identifiers, and the
list of their class pairs is as long as this set is large. A caller without callees and a call inside
a class leave the set as it is.
-/

namespace Cohesion

def Separator.classPair (separator : Separator) (relation : String × String) : String × String :=
  (separator.classOf relation.1, separator.classOf relation.2)

namespace CallGraph

/-- A caller is recorded with a callee. -/
def Calls (calls : CallGraph) (caller callee : String) : Prop :=
  ∃ callees, calls.callees? caller = some callees ∧ callee ∈ callees

theorem mem_relations {calls : CallGraph} {caller callee : String} :
    (caller, callee) ∈ calls.relations ↔ calls.Calls caller callee := by
  simp only [relations, toList, NameMap.toList, List.mem_flatMap, List.mem_map, Calls, callees?]
  constructor
  · rintro ⟨⟨name, callees⟩, member, other, inside, same⟩
    cases same
    exact ⟨callees, (NameMap.mem_entries_iff _).mp member, inside⟩
  · rintro ⟨callees, found, inside⟩
    exact ⟨(caller, callees), (NameMap.mem_entries_iff _).mpr found, callee, inside, rfl⟩

/-- The relations by lookup: every known caller with each of its callees. -/
def relationSet (calls : CallGraph) : Finset (String × String) :=
  calls.calls.keys.names.toFinset.biUnion fun caller =>
    ((calls.callees? caller).getD ∅).names.toFinset.image fun callee => (caller, callee)

theorem mem_relation_set {calls : CallGraph} {caller callee : String} :
    (caller, callee) ∈ calls.relationSet ↔ calls.Calls caller callee := by
  simp only [relationSet, Finset.mem_biUnion, Finset.mem_image, List.mem_toFinset, Prod.mk.injEq]
  constructor
  · rintro ⟨source, known, target, inside, rfl, rfl⟩
    obtain ⟨callees, found⟩ := (NameMap.mem_keys_iff _).mp known
    rw [callees?, found] at inside
    exact ⟨callees, found, inside⟩
  · rintro ⟨callees, found, inside⟩
    refine ⟨caller, (NameMap.mem_keys_iff _).mpr ⟨callees, found⟩, callee, ?_, rfl, rfl⟩
    rw [found]
    exact inside

theorem relations_ordered (calls : CallGraph) :
    calls.relations.Pairwise (PairBefore (· < ·)) := by
  rw [relations, List.pairwise_flatMap]
  constructor
  · rintro ⟨caller, callees⟩ _
    rw [List.pairwise_map]
    apply callees.ascending.imp
    intro first second less
    exact .inr ⟨rfl, less⟩
  · have callers := calls.calls.ascending
    rw [List.pairwise_map] at callers
    apply callers.imp
    intro first second less one oneMember other otherMember
    obtain ⟨_, _, rfl⟩ := List.mem_map.mp oneMember
    obtain ⟨_, _, rfl⟩ := List.mem_map.mp otherMember
    exact .inl less

theorem relations_nodup (calls : CallGraph) : calls.relations.Nodup :=
  calls.relations_ordered.nodup

section Crossing

variable (calls : CallGraph) (separator : Separator)

/-- The relations whose ends lie in different classes. -/
def crossingRelations : Finset (String × String) :=
  calls.relationSet.filter fun relation =>
    separator.classOf relation.1 ≠ separator.classOf relation.2

def relationsBetween (source target : String) : Finset (String × String) :=
  (calls.crossingRelations separator).filter fun relation =>
    separator.classPair relation = (source, target)

def crossingList : List (String × String) :=
  calls.relations.filter fun relation =>
    (separator.classPair relation).1 != (separator.classPair relation).2

variable {calls separator}

theorem mem_crossing_relations {caller callee : String} :
    (caller, callee) ∈ calls.crossingRelations separator ↔
      calls.Calls caller callee ∧ separator.classOf caller ≠ separator.classOf callee := by
  rw [crossingRelations, Finset.mem_filter, mem_relation_set]

theorem card_crossing_relations_eq_zero : (calls.crossingRelations separator).card = 0 ↔
    ∀ caller callees, calls.callees? caller = some callees → ∀ callee ∈ callees,
      separator.classOf caller = separator.classOf callee := by
  rw [Finset.card_eq_zero, Finset.eq_empty_iff_forall_notMem]
  constructor
  · intro none_crosses caller callees found callee inside
    by_contra apart
    exact none_crosses (caller, callee) (mem_crossing_relations.mpr ⟨⟨callees, found, inside⟩, apart⟩)
  · rintro inner ⟨caller, callee⟩ crosses
    obtain ⟨⟨callees, found, inside⟩, apart⟩ := mem_crossing_relations.mp crosses
    exact apart (inner caller callees found callee inside)

theorem mem_crossing_list {relation : String × String} :
    relation ∈ calls.crossingList separator ↔ relation ∈ calls.crossingRelations separator := by
  obtain ⟨caller, callee⟩ := relation
  rw [crossingList, List.mem_filter, bne_iff_ne, mem_relations, mem_crossing_relations]
  rfl

theorem crossing_list_ordered :
    (calls.crossingList separator).Pairwise (PairBefore (· < ·)) :=
  calls.relations_ordered.sublist List.filter_sublist

theorem crossing_list_nodup : (calls.crossingList separator).Nodup :=
  calls.relations_nodup.filter _

theorem crossings_eq :
    calls.crossings separator = (calls.crossingList separator).map separator.classPair :=
  List.filter_map

theorem length_crossings :
    (calls.crossings separator).length = (calls.crossingRelations separator).card := by
  have listed : calls.crossingRelations separator = (calls.crossingList separator).toFinset := by
    ext relation
    rw [List.mem_toFinset, mem_crossing_list]
  rw [crossings_eq, List.length_map, listed, List.toFinset_card_of_nodup crossing_list_nodup]

/-- A class pair is listed once for each relation between the classes. -/
theorem count_crossings (source target : String) :
    (calls.crossings separator).count (source, target) =
      (calls.relationsBetween separator source target).card := by
  have listed : calls.relationsBetween separator source target =
      ((calls.crossingList separator).filter fun relation =>
        separator.classPair relation == (source, target)).toFinset := by
    ext relation
    simp [relationsBetween, mem_crossing_list]
  rw [crossings_eq, List.count, List.countP_map, List.countP_eq_length_filter, listed,
    List.toFinset_card_of_nodup (crossing_list_nodup.filter _)]
  rfl

theorem crossings_eq_of_relations {other : CallGraph}
    (same : calls.crossingRelations separator = other.crossingRelations separator) :
    calls.crossings separator = other.crossings separator := by
  rw [crossings_eq, crossings_eq]
  apply congrArg
  apply crossing_list_ordered.eq_of_mem_iff crossing_list_ordered
  intro relation
  rw [mem_crossing_list, mem_crossing_list, same]

end Crossing

section Additions

variable {calls : CallGraph} {separator : Separator}

theorem calls_add_caller {added caller callee : String} :
    (calls.addCaller added).Calls caller callee ↔ calls.Calls caller callee := by
  simp only [Calls, callees?, addCaller]
  by_cases same : caller = added
  · subst same
    rw [NameMap.get?_adjust_self]
    cases calls.calls.get? caller with
    | none => simp
    | some callees => simp
  · rw [NameMap.get?_adjust_of_ne _ same]

theorem calls_add_call {source target caller callee : String} :
    (calls.addCall source target).Calls caller callee ↔
      calls.Calls caller callee ∨ caller = source ∧ callee = target := by
  simp only [Calls, callees?, addCall]
  by_cases same : caller = source
  · subst same
    rw [NameMap.get?_adjust_self]
    cases calls.calls.get? caller with
    | none => simp
    | some callees => simp [or_comm]
  · rw [NameMap.get?_adjust_of_ne _ same]
    simp [same]

theorem crossing_relations_add_caller (added : String) :
    (calls.addCaller added).crossingRelations separator = calls.crossingRelations separator := by
  ext ⟨caller, callee⟩
  rw [mem_crossing_relations, mem_crossing_relations, calls_add_caller]

theorem crossing_relations_add_inner_call {source target : String}
    (inner : separator.classOf source = separator.classOf target) :
    (calls.addCall source target).crossingRelations separator =
      calls.crossingRelations separator := by
  ext ⟨caller, callee⟩
  rw [mem_crossing_relations, mem_crossing_relations, calls_add_call]
  apply and_congr_left
  intro apart
  apply or_iff_left
  rintro ⟨rfl, rfl⟩
  exact apart inner

end Additions

end CallGraph

end Cohesion
