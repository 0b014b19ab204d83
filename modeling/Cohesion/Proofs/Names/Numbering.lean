import Cohesion.Names.Set

/-!
# Numbering of names

The names of a set are numbered from zero on, in name order. Ascending lists of numbers stand for
the subsets, and their names are ascending too.
-/

namespace Cohesion.NameSet

theorem mem_iff {set : NameSet} {name : String} : name ∈ set ↔ name ∈ set.names := Iff.rfl

theorem names_eq_of_ascending {set : NameSet} {names : List String}
    (ascending : names.Pairwise (· < ·)) (same : ∀ name, name ∈ set ↔ name ∈ names) :
    set.names = names :=
  eq_of_ascending set.ascending ascending same

theorem eq_of_names {left right : NameSet} (same : left.names = right.names) : left = right := by
  ext name
  rw [mem_iff, mem_iff, same]

theorem size_eq_zero_iff {set : NameSet} : set.size = 0 ↔ set.names = [] := by
  rw [size, List.length_eq_zero_iff]

def nameAt (set : NameSet) (number : Nat) : String := set.names.getD number ""

theorem name_at_eq {set : NameSet} {number : Nat} (bound : number < set.size) :
    set.nameAt number = set.names[number] := by
  rw [nameAt, List.getD_eq_getElem?_getD, List.getElem?_eq_getElem bound]
  rfl

theorem names_get? {set : NameSet} {number : Nat} (bound : number < set.size) :
    set.names[number]? = some (set.nameAt number) := by
  rw [name_at_eq bound]
  exact List.getElem?_eq_getElem bound

theorem name_at_lt {set : NameSet} {first second : Nat} (less : first < second)
    (bound : second < set.size) : set.nameAt first < set.nameAt second := by
  rw [name_at_eq (Nat.lt_trans less bound), name_at_eq bound]
  exact List.pairwise_iff_getElem.mp set.ascending first second _ _ less

theorem name_at_injective {set : NameSet} {first second : Nat} (firstBound : first < set.size)
    (secondBound : second < set.size) (same : set.nameAt first = set.nameAt second) :
    first = second := by
  rcases Nat.lt_trichotomy first second with less | equal | greater
  · have below := name_at_lt less secondBound
    rw [same] at below
    exact absurd below (String.lt_irrefl _)
  · exact equal
  · have below := name_at_lt greater firstBound
    rw [same] at below
    exact absurd below (String.lt_irrefl _)

theorem map_name_at_range (set : NameSet) : (List.range set.size).map set.nameAt = set.names := by
  apply List.ext_getElem
  · simp [size]
  · intro number _ bound
    rw [List.getElem_map, List.getElem_range, name_at_eq bound]

theorem map_name_at_ascending {set : NameSet} {numbers : List Nat}
    (ascending : numbers.Pairwise (· < ·)) (bounded : ∀ number ∈ numbers, number < set.size) :
    (numbers.map set.nameAt).Pairwise (· < ·) := by
  rw [List.pairwise_map]
  exact ascending.imp_of_mem fun _ memberSecond less => name_at_lt less (bounded _ memberSecond)

theorem mem_map_name_at {set : NameSet} {numbers : List Nat}
    (bounded : ∀ number ∈ numbers, number < set.size) {number : Nat} (bound : number < set.size) :
    set.nameAt number ∈ numbers.map set.nameAt ↔ number ∈ numbers := by
  rw [List.mem_map]
  constructor
  · rintro ⟨other, member, same⟩
    exact name_at_injective (bounded other member) bound same ▸ member
  · intro member
    exact ⟨number, member, rfl⟩

theorem names_nodup (set : NameSet) : set.names.Nodup :=
  set.ascending.imp fun less => by
    rintro rfl
    exact String.lt_irrefl _ less

theorem union_names_perm {left right : NameSet} (disjoint : ∀ name ∈ left, name ∉ right) :
    (left.union right).names.Perm (left.names ++ right.names) := by
  refine (List.perm_ext_iff_of_nodup (names_nodup _) ?_).mpr fun name => ?_
  · refine List.nodup_append.mpr ⟨names_nodup left, names_nodup right, ?_⟩
    rintro name inLeft _ inRight rfl
    exact disjoint name inLeft inRight
  · rw [List.mem_append]
    exact mem_union

end Cohesion.NameSet
