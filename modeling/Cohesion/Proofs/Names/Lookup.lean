import Cohesion.Names.Table

/-!
# Entries, lookups and restrictions

The entries of a map are its lookups, so a map can be cut down to some names by keeping their
entries, and built from a set by giving each name a value.
-/

namespace Cohesion

variable {Value : Type}

namespace NameMap

theorem mem_entries_iff (map : NameMap Value) {name : String} {value : Value} :
    (name, value) ∈ map.entries ↔ map.get? name = some value := by
  obtain ⟨entries, ascending⟩ := map
  change (name, value) ∈ entries ↔ entries.lookup name = some value
  induction entries with
  | nil => simp
  | cons head rest induction =>
      obtain ⟨key, held⟩ := head
      obtain ⟨below, tail⟩ := List.pairwise_cons.mp ascending
      rw [List.mem_cons, Prod.mk.injEq, induction tail]
      by_cases same : name = key
      · subst same
        have absent : rest.lookup name ≠ some value := by
          intro found
          have member := (induction tail).mpr found
          exact String.lt_irrefl name (below name (List.mem_map_of_mem (f := Prod.fst) member))
        simp only [List.lookup_cons, beq_self_eq_true, true_and, absent, or_false,
          Option.some.injEq]
        exact eq_comm
      · have differs : (name == key) = false := by simpa using same
        simp only [List.lookup_cons, differs, same, false_and, false_or]

def restrict (map : NameMap Value) (kept : NameSet) : NameMap Value :=
  ⟨map.entries.filter fun entry => decide (entry.1 ∈ kept),
    map.ascending.sublist (List.filter_sublist.map Prod.fst)⟩

def ofSet (names : NameSet) (value : String → Value) : NameMap Value :=
  ⟨names.names.map fun name => (name, value name), by
    simpa [Function.comp_def] using names.ascending⟩

theorem get?_restrict (map : NameMap Value) (kept : NameSet) (name : String) :
    (map.restrict kept).get? name = if name ∈ kept then map.get? name else none := by
  ext value : 1
  rw [← mem_entries_iff]
  simp only [restrict, List.mem_filter, decide_eq_true_eq, mem_entries_iff]
  split
  · next inside => exact and_iff_left inside
  · next outside => simp [outside]

theorem get?_of_set (names : NameSet) (value : String → Value) (name : String) :
    (ofSet names value).get? name = if name ∈ names then some (value name) else none := by
  ext found : 1
  rw [← mem_entries_iff]
  simp only [ofSet, List.mem_map, Prod.mk.injEq]
  split
  · next inside =>
      rw [Option.some.injEq]
      constructor
      · rintro ⟨_, _, rfl, same⟩
        exact same
      · intro same
        exact ⟨name, inside, rfl, same⟩
  · next outside =>
      simp only [reduceCtorEq, iff_false]
      rintro ⟨_, member, rfl, _⟩
      exact outside member

theorem get?_map_values {Result : Type} (transform : Value → Result) (map : NameMap Value)
    (name : String) : (map.mapValues transform).get? name = (map.get? name).map transform := by
  ext found : 1
  rw [← mem_entries_iff, Option.map_eq_some_iff]
  simp only [mapValues, List.mem_map, Prod.mk.injEq]
  constructor
  · rintro ⟨⟨_, value⟩, member, rfl, same⟩
    exact ⟨value, (mem_entries_iff map).mp member, same⟩
  · rintro ⟨value, held, same⟩
    exact ⟨(name, value), (mem_entries_iff map).mpr held, rfl, same⟩

theorem mem_keys_restrict {map : NameMap Value} {kept : NameSet} {name : String} :
    name ∈ (map.restrict kept).keys ↔ name ∈ kept ∧ name ∈ map.keys := by
  rw [mem_keys_iff, mem_keys_iff, get?_restrict]
  split
  · next inside => simp [inside]
  · next outside => simp [outside]

end NameMap

theorem NameTable.mem_names {table : NameTable Value} {name : String} :
    name ∈ table.names ↔
      ∃ row ∈ table.rows.entries, name = row.1 ∨ name ∈ row.2.keys := by
  have folded : ∀ (rows : List (String × NameMap Value)) (found : NameSet),
      name ∈ rows.foldl (fun found row => (found.insert row.1).union row.2.keys) found ↔
        name ∈ found ∨ ∃ row ∈ rows, name = row.1 ∨ name ∈ row.2.keys := by
    intro rows
    induction rows with
    | nil => simp
    | cons head rest induction =>
        intro found
        rw [List.foldl_cons, induction, NameSet.mem_union, NameSet.mem_insert]
        simp only [List.mem_cons, exists_eq_or_imp]
        rw [or_assoc, or_assoc, or_left_comm, or_assoc]
  exact (folded table.rows.entries ∅).trans (or_iff_right NameSet.not_mem_empty)

end Cohesion
