import Mathlib.Data.List.Basic
import Cohesion.Coupling.Shares
import Cohesion.Proofs.Names.Lookup

/-!
# Counting class pairs

The tally of a list of pairs holds for each pair how often it is listed, and nothing for the pairs
that are not. A row comes into being with its first cell, so every name of the tally is an end of a
listed pair.
-/

namespace Cohesion

namespace NameTable

variable {Value Result : Type}

theorem get?_map_values (transform : Value → Result) (table : NameTable Value)
    (row column : String) :
    (table.mapValues transform).get? row column = (table.get? row column).map transform := by
  simp only [get?, row?, mapValues, NameMap.get?_map_values]
  cases table.rows.get? row with
  | none => rfl
  | some values => exact NameMap.get?_map_values transform values column

def RowsFilled (table : NameTable Value) : Prop :=
  ∀ row values, table.row? row = some values → ∃ column value, values.get? column = some value

theorem rows_filled_adjust {table : NameTable Value} (filled : table.RowsFilled)
    (row column : String) (change : Option Value → Value) :
    (table.adjust row column change).RowsFilled := by
  intro other values found
  by_cases same : other = row
  · subst same
    rw [row?, adjust, NameMap.get?_adjust_self, Option.some.injEq] at found
    subst found
    exact ⟨column, _, NameMap.get?_adjust_self _ _ _⟩
  · rw [row?, adjust, NameMap.get?_adjust_of_ne _ same] at found
    exact filled other values found

theorem rows_filled_map_values {table : NameTable Value} (filled : table.RowsFilled)
    (transform : Value → Result) : (table.mapValues transform).RowsFilled := by
  intro row values found
  rw [row?, mapValues, NameMap.get?_map_values, Option.map_eq_some_iff] at found
  obtain ⟨old, stored, rfl⟩ := found
  obtain ⟨column, value, held⟩ := filled row old stored
  exact ⟨column, transform value, by rw [NameMap.get?_map_values, held, Option.map_some]⟩

theorem RowsFilled.mem_names {table : NameTable Value} (filled : table.RowsFilled)
    {name : String} : name ∈ table.names ↔
      ∃ row column value, table.get? row column = some value ∧ (name = row ∨ name = column) := by
  rw [NameTable.mem_names]
  constructor
  · rintro ⟨⟨row, values⟩, member, inside⟩
    have found : table.row? row = some values := (NameMap.mem_entries_iff _).mp member
    rcases inside with same | inColumns
    · obtain ⟨column, value, held⟩ := filled row values found
      exact ⟨row, column, value, by rw [get?, found, Option.bind_some, held], .inl same⟩
    · obtain ⟨value, held⟩ := (NameMap.mem_keys_iff _).mp inColumns
      exact ⟨row, name, value, by rw [get?, found, Option.bind_some, held], .inr rfl⟩
  · rintro ⟨row, column, value, held, same⟩
    rw [get?, Option.bind_eq_some_iff] at held
    obtain ⟨values, found, held⟩ := held
    refine ⟨(row, values), (NameMap.mem_entries_iff _).mpr found, ?_⟩
    apply same.imp_right
    intro isColumn
    rw [isColumn]
    exact (NameMap.mem_keys_iff _).mpr ⟨value, held⟩

end NameTable

namespace CouplingGraph

theorem get?_count_pairs (pairs : List (String × String)) (table : NameTable Nat)
    (source target : String) :
    (pairs.foldl (fun table pair =>
      table.adjust pair.1 pair.2 fun count => count.getD 0 + 1) table).get? source target =
      if pairs.count (source, target) = 0 then table.get? source target
      else some ((table.get? source target).getD 0 + pairs.count (source, target)) := by
  induction pairs generalizing table with
  | nil => rfl
  | cons pair rest induction =>
      obtain ⟨row, column⟩ := pair
      rw [List.foldl_cons, induction]
      by_cases same : (row, column) = (source, target)
      · cases same
        rw [NameTable.get?_adjust_self, List.count_cons_self, Option.getD_some,
          if_neg (Nat.succ_ne_zero _)]
        split
        · next none_left => rw [none_left]
        · rw [Nat.add_assoc, Nat.add_comm 1]
      · have differs : source ≠ row ∨ target ≠ column := by
          rw [Prod.mk.injEq, eq_comm, @eq_comm _ column] at same
          exact not_and_or.mp same
        rw [NameTable.get?_adjust_of_ne _ differs, List.count_cons_of_ne same]

/-- The tally of a pair is the number of times that it is listed. -/
theorem get?_tally (pairs : List (String × String)) (source target : String) :
    (tally pairs).table.get? source target =
      if pairs.count (source, target) = 0 then none
      else some (pairs.count (source, target)) := by
  have counted := get?_count_pairs pairs ∅ source target
  have absent : (∅ : NameTable Nat).get? source target = none := rfl
  rwa [absent, Option.getD_none, Nat.zero_add] at counted

theorem rows_filled_tally (pairs : List (String × String)) :
    (tally pairs).table.RowsFilled := by
  have counted : ∀ table : NameTable Nat, table.RowsFilled →
      (pairs.foldl (fun table pair =>
        table.adjust pair.1 pair.2 fun count => count.getD 0 + 1) table).RowsFilled := by
    induction pairs with
    | nil => exact fun _ filled => filled
    | cons pair rest induction =>
        intro table filled
        exact induction _ (NameTable.rows_filled_adjust filled _ _ _)
  apply counted
  intro row values found
  cases found

end CouplingGraph

end Cohesion
