import Mathlib.Data.Set.Monotone
import Mathlib.Data.String.Basic
import Cohesion.Proofs.Names.Lookup
import Cohesion.Proofs.Names.Numbering

/-!
# Renaming sets, maps and tables

Renaming puts every name in anew. When the new names stand in the same order as the old ones, the
listings of a set, a map and a table are the old listings with each name replaced.
-/

namespace Cohesion

namespace NameSet

def image (rename : String → String) (set : NameSet) : NameSet := ofList (set.names.map rename)

variable {rename : String → String} {set : NameSet}

@[simp] theorem mem_image {name : String} :
    name ∈ set.image rename ↔ ∃ old ∈ set, rename old = name := by
  rw [image, mem_of_list, List.mem_map]
  rfl

theorem image_union (left right : NameSet) :
    (left.union right).image rename = (left.image rename).union (right.image rename) := by
  ext name
  simp [or_and_right, exists_or]

@[simp] theorem image_id (set : NameSet) : set.image id = set := by
  ext name
  simp

section Ordered

variable (order : StrictMonoOn rename {name | name ∈ set})

include order

theorem names_image : (set.image rename).names = set.names.map rename := by
  apply names_eq_of_ascending
  · rw [List.pairwise_map]
    exact set.ascending.imp_of_mem fun first second less => order first second less
  · intro name
    rw [mem_image, List.mem_map]
    rfl

theorem size_image : (set.image rename).size = set.size := by
  rw [size, names_image order, List.length_map, size]

theorem name_at_image {number : Nat} (bound : number < set.size) :
    (set.image rename).nameAt number = rename (set.nameAt number) := by
  have inside : number < (set.image rename).size := by rwa [size_image order]
  have listed := congrArg (fun names => names[number]?) (names_image order)
  rw [List.getElem?_map, names_get? inside, names_get? bound] at listed
  exact Option.some.inj listed

end Ordered

end NameSet

namespace NameMap

variable {Value Result : Type}

theorem entries_insert_behind {map : NameMap Value} {name : String} {value : Value}
    (behind : ∀ key ∈ map.entries.map Prod.fst, key < name) :
    (map.insert name value).entries = map.entries ++ [(name, value)] := by
  have placed : ∀ entries : List (String × Value),
      (∀ key ∈ entries.map Prod.fst, key < name) →
      adjustEntry name (fun _ => value) entries = entries ++ [(name, value)] := by
    intro entries
    induction entries with
    | nil => simp [adjustEntry]
    | cons head rest induction =>
        intro before
        rw [List.map_cons, List.forall_mem_cons] at before
        have notSmaller : ¬name < head.1 := String.lt_asymm before.1
        have notSame : name ≠ head.1 := by
          intro same
          rw [same] at before
          exact String.lt_irrefl _ before.1
        simp [adjustEntry, notSmaller, notSame, induction before.2]
  exact placed map.entries behind

theorem entries_foldl_insert {members : List (String × Value)} {map : NameMap Value}
    (ascending : ((map.entries ++ members).map Prod.fst).Pairwise (· < ·)) :
    (members.foldl (fun map member => map.insert member.1 member.2) map).entries =
      map.entries ++ members := by
  induction members generalizing map with
  | nil => simp
  | cons head rest induction =>
      have behind : ∀ key ∈ map.entries.map Prod.fst, key < head.1 := by
        rw [List.map_append, List.pairwise_append] at ascending
        intro key member
        exact ascending.2.2 key member head.1 (by simp)
      have appended : (map.insert head.1 head.2).entries = map.entries ++ [(head.1, head.2)] :=
        entries_insert_behind behind
      rw [List.foldl_cons, induction]
      · simp [appended]
      · simpa [appended] using ascending

/-- Ascending members, inserted into the empty map, stand as they came. -/
theorem entries_of_ascending {members : List (String × Value)}
    (ascending : (members.map Prod.fst).Pairwise (· < ·)) :
    (members.foldl (fun (map : NameMap Value) member => map.insert member.1 member.2) ∅).entries =
      members :=
  entries_foldl_insert ascending

/-- The values under new names. Of values that come under one name, the last one holds. -/
def rename (map : NameMap Value) (rename : String → String) : NameMap Value :=
  map.entries.foldl (fun renamed entry => renamed.insert (rename entry.1) entry.2) ∅

theorem entries_rename {map : NameMap Value} {rename : String → String}
    (order : StrictMonoOn rename {name | name ∈ map.keys}) :
    (map.rename rename).entries = map.entries.map fun entry => (rename entry.1, entry.2) := by
  have ascending : ((map.entries.map fun entry => (rename entry.1, entry.2)).map
      Prod.fst).Pairwise (· < ·) := by
    have renamed : ((map.entries.map Prod.fst).map rename).Pairwise (· < ·) := by
      rw [List.pairwise_map]
      exact map.ascending.imp_of_mem fun first second less => order first second less
    simpa [Function.comp_def] using renamed
  rw [NameMap.rename, ← entries_of_ascending ascending, List.foldl_map]

theorem keys_rename {map : NameMap Value} {rename : String → String}
    (order : StrictMonoOn rename {name | name ∈ map.keys}) :
    (map.rename rename).keys = map.keys.image rename := by
  apply NameSet.eq_of_names
  rw [NameSet.names_image order, keys, keys]
  simp [entries_rename order]

end NameMap

namespace NameTable

variable {Value : Type}

def rename (table : NameTable Value) (rename : String → String) : NameTable Value :=
  ⟨(table.rows.mapValues fun row => row.rename rename).rename rename⟩

variable {table : NameTable Value} {rename : String → String}
  (order : StrictMonoOn rename {name | name ∈ table.names})

include order

theorem row_entries_rename : (table.rename rename).rows.entries =
    table.rows.entries.map fun row => (rename row.1, row.2.rename rename) := by
  have rows : StrictMonoOn rename
      {name | name ∈ (table.rows.mapValues fun row => row.rename rename).keys} := by
    apply order.mono
    intro name member
    obtain ⟨entry, listed, same⟩ := List.mem_map.mp member
    obtain ⟨row, inside, rfl⟩ := List.mem_map.mp listed
    exact mem_names.mpr ⟨row, inside, .inl same.symm⟩
  rw [NameTable.rename, NameMap.entries_rename rows]
  simp [NameMap.mapValues, Function.comp_def]

theorem column_order {row : String × NameMap Value} (member : row ∈ table.rows.entries) :
    StrictMonoOn rename {name | name ∈ row.2.keys} := by
  apply order.mono
  intro name inside
  exact mem_names.mpr ⟨row, member, .inr inside⟩

theorem cells_rename : (table.rename rename).cells =
    table.cells.map fun cell => (rename cell.1, rename cell.2.1, cell.2.2) := by
  simp only [cells, NameMap.toList, row_entries_rename order, List.flatMap_map, List.map_flatMap,
    List.map_map]
  apply List.flatMap_congr
  intro row member
  simp [NameMap.entries_rename (column_order order member), Function.comp_def]

theorem names_rename : (table.rename rename).names = table.names.image rename := by
  ext name
  simp only [mem_names, row_entries_rename order, List.mem_map, NameSet.mem_image]
  constructor
  · rintro ⟨_, ⟨row, member, rfl⟩, same | inside⟩
    · exact ⟨row.1, ⟨row, member, .inl rfl⟩, same.symm⟩
    · rw [NameMap.keys_rename (column_order order member), NameSet.mem_image] at inside
      obtain ⟨old, isColumn, same⟩ := inside
      exact ⟨old, ⟨row, member, .inr isColumn⟩, same⟩
  · rintro ⟨old, ⟨row, member, same | inside⟩, rfl⟩
    · exact ⟨_, ⟨row, member, rfl⟩, .inl (congrArg rename same)⟩
    · refine ⟨_, ⟨row, member, rfl⟩, .inr ?_⟩
      rw [NameMap.keys_rename (column_order order member), NameSet.mem_image]
      exact ⟨old, inside, rfl⟩

end NameTable

end Cohesion
