import Cohesion.Proofs.Coupling.Edges

/-!
# Inserting edges

An inserted edge replaces the weight of its ordered pair and no other weight, and its ends are
classes from then on.
-/

namespace Cohesion

variable {W : Type}

theorem NameTable.mem_names_iff_lookup {table : NameTable W} {name : String} :
    name ∈ table.names ↔
      name ∈ table.rows.keys ∨ ∃ row value, table.get? row name = some value := by
  rw [mem_names]
  constructor
  · rintro ⟨⟨row, values⟩, member, same | inside⟩
    · exact .inl (same ▸ List.mem_map_of_mem (f := Prod.fst) member)
    · obtain ⟨value, held⟩ := (NameMap.mem_keys_iff _).mp inside
      refine .inr ⟨row, value, ?_⟩
      rw [get?, row?, (NameMap.mem_entries_iff _).mp member, Option.bind_some, held]
  · rintro (isRow | ⟨row, value, held⟩)
    · obtain ⟨values, found⟩ := (NameMap.mem_keys_iff _).mp isRow
      exact ⟨(name, values), (NameMap.mem_entries_iff _).mpr found, .inl rfl⟩
    · obtain ⟨values, found, inRow⟩ := Option.bind_eq_some_iff.mp held
      exact ⟨(row, values), (NameMap.mem_entries_iff _).mpr found,
        .inr ((NameMap.mem_keys_iff _).mpr ⟨value, inRow⟩)⟩

namespace CouplingGraph

variable (graph : CouplingGraph W) (source target : String) (weight : W)

theorem weight?_insert (first second : String) :
    (graph.insert source target weight).weight? first second =
      if first = source ∧ second = target then some weight else graph.weight? first second := by
  split
  · next same =>
      rw [same.1, same.2]
      exact NameTable.get?_adjust_self _ _ _ _
  · next differs => exact NameTable.get?_adjust_of_ne _ (not_and_or.mp differs) _

theorem mem_classes_insert {name : String} :
    name ∈ (graph.insert source target weight).classes ↔
      name = source ∨ name = target ∨ name ∈ graph.classes := by
  have lookups : (∃ row value,
        (graph.insert source target weight).weight? row name = some value) ↔
      name = target ∨ ∃ row value, graph.weight? row name = some value := by
    constructor
    · rintro ⟨row, value, held⟩
      rw [weight?_insert] at held
      split at held
      · next same => exact .inl same.2
      · exact .inr ⟨row, value, held⟩
    · rintro (rfl | ⟨row, value, held⟩)
      · exact ⟨source, weight, by rw [weight?_insert, if_pos ⟨rfl, rfl⟩]⟩
      · by_cases same : row = source ∧ name = target
        · exact ⟨row, weight, by rw [weight?_insert, if_pos same]⟩
        · exact ⟨row, value, by rw [weight?_insert, if_neg same, held]⟩
  have rows : name ∈ (graph.insert source target weight).table.rows.keys ↔
      name = source ∨ name ∈ graph.table.rows.keys := NameMap.mem_keys_adjust
  calc name ∈ (graph.insert source target weight).classes
      ↔ (name = source ∨ name ∈ graph.table.rows.keys) ∨
          name = target ∨ ∃ row value, graph.weight? row name = some value :=
        NameTable.mem_names_iff_lookup.trans (or_congr rows lookups)
    _ ↔ name = source ∨ name = target ∨ name ∈ graph.table.rows.keys ∨
          ∃ row value, graph.weight? row name = some value := by
        rw [or_assoc, or_left_comm (a := name ∈ graph.table.rows.keys)]
    _ ↔ name = source ∨ name = target ∨ name ∈ graph.classes :=
        or_congr_right (or_congr_right NameTable.mem_names_iff_lookup.symm)

end CouplingGraph

end Cohesion
