import Mathlib.Data.List.Basic
import Cohesion.Clustering.Matrix
import Cohesion.Proofs.Names.Numbering

/-!
# Cells of the affinity matrix

A cell holds the affinity of the two names with its row and column number, and every row and column
number in use has a cell. So couplings over member numbers are couplings over the names: they read
the matrix inside its bounds and add the same terms in the same order.
-/

namespace Cohesion

theorem row_major_get? {Row Column Cell : Type} (cell : Row → Column → Cell)
    (rows : List Row) (columns : List Column) (row : Nat) {column : Nat}
    (columnBound : column < columns.length) :
    (rows.flatMap fun first => columns.map (cell first))[row * columns.length + column]? =
      rows[row]?.map fun first => cell first columns[column] := by
  induction rows generalizing row with
  | nil => simp
  | cons head rest induction =>
      rw [List.flatMap_cons]
      cases row with
      | zero =>
          rw [Nat.zero_mul, Nat.zero_add, List.getElem?_append_left (by simpa using columnBound)]
          simp [columnBound]
      | succ row =>
          have offset : (row + 1) * columns.length + column =
              columns.length + (row * columns.length + column) := by
            rw [Nat.succ_mul]
            omega
          rw [offset, List.getElem?_append_right (by simp), List.length_map,
            Nat.add_sub_cancel_left, induction, List.getElem?_cons_succ]

theorem row_major_lt {size row column : Nat} (rowBound : row < size) (columnBound : column < size) :
    row * size + column < size * size := by
  calc row * size + column
      < (row + 1) * size := by
        rw [Nat.succ_mul]
        exact Nat.add_lt_add_left columnBound _
    _ ≤ size * size := Nat.mul_le_mul_right size rowBound

namespace Affinity

variable {W : Type} [Weight W]

/-- The affinities that the coupling of two sets adds, in the order of the additions. -/
def terms (affinity : Affinity W) (rows columns : NameSet) : List W :=
  rows.toList.flatMap fun row => columns.toList.map (affinity.weight row)

theorem between_eq_terms (affinity : Affinity W) (rows columns : NameSet) :
    affinity.between rows columns = Weight.accumulate (affinity.terms rows columns) := rfl

end Affinity

namespace AffinityMatrix

section Places

variable {W : Type}

/-- The places of the cells that a coupling adds, in the order of the additions. -/
def places (matrix : AffinityMatrix W) (rows columns : List Nat) : List Nat :=
  rows.flatMap fun row => columns.map fun column => row * matrix.size + column

theorem between_eq_places [Weight W] (matrix : AffinityMatrix W) (rows columns : List Nat) :
    matrix.between rows columns = Weight.accumulate
      ((matrix.places rows columns).map fun place => matrix.cells.getD place Weight.zero) := by
  simp only [between, places, List.map_flatMap, List.map_map]
  rfl

theorem mem_places {matrix : AffinityMatrix W} {rows columns : List Nat} {place : Nat} :
    place ∈ matrix.places rows columns ↔
      ∃ row ∈ rows, ∃ column ∈ columns, row * matrix.size + column = place := by
  simp only [places, List.mem_flatMap, List.mem_map]

/-- A coupling over numbers stays inside the matrix and finds there, one after the other, the terms
of the coupling over names. -/
structure ReadsNames [Weight W] (matrix : AffinityMatrix W) (affinity : Affinity W)
    (rows columns : List Nat) (rowNames columnNames : NameSet) : Prop where
  in_bounds : ∀ place ∈ matrix.places rows columns, place < matrix.size * matrix.size
  same_terms : (matrix.places rows columns).map (fun place => matrix.cells[place]?) =
    (affinity.terms rowNames columnNames).map some

theorem ReadsNames.between_eq [Weight W] {matrix : AffinityMatrix W} {affinity : Affinity W}
    {rows columns : List Nat} {rowNames columnNames : NameSet}
    (reads : matrix.ReadsNames affinity rows columns rowNames columnNames) :
    matrix.between rows columns = affinity.between rowNames columnNames := by
  have found := congrArg (List.map fun cell => cell.getD Weight.zero) reads.same_terms
  simp only [List.map_map, Function.comp_def, Option.getD_some, List.map_id'] at found
  rw [between_eq_places, Affinity.between_eq_terms, ← found]
  simp only [Array.getD_eq_getD_getElem?]

end Places

variable {W : Type} [Weight W]

theorem cells_size (affinity : Affinity W) (classes : NameSet) :
    (ofAffinity affinity classes).cells.size = classes.size * classes.size := by
  simp [ofAffinity, NameSet.size, NameSet.toList, List.map_const']

theorem cell_of_affinity (affinity : Affinity W) (classes : NameSet) {row column : Nat}
    (rowBound : row < classes.size) (columnBound : column < classes.size) :
    (ofAffinity affinity classes).cells[row * classes.size + column]? =
      some (affinity.weight (classes.nameAt row) (classes.nameAt column)) := by
  have cell := row_major_get? affinity.weight classes.names classes.names
    row columnBound
  rw [NameSet.names_get? rowBound, ← NameSet.name_at_eq columnBound] at cell
  simp only [ofAffinity, List.getElem?_toArray, NameSet.toList, NameSet.size]
  exact cell

theorem reads_names_of_affinity (affinity : Affinity W) {classes rowNames columnNames : NameSet}
    {rows columns : List Nat} (rowsBounded : ∀ number ∈ rows, number < classes.size)
    (columnsBounded : ∀ number ∈ columns, number < classes.size)
    (rowsNamed : rowNames.names = rows.map classes.nameAt)
    (columnsNamed : columnNames.names = columns.map classes.nameAt) :
    (ofAffinity affinity classes).ReadsNames affinity rows columns rowNames columnNames := by
  constructor
  case in_bounds =>
    intro place member
    obtain ⟨row, rowMember, column, columnMember, rfl⟩ := mem_places.mp member
    exact row_major_lt (rowsBounded row rowMember) (columnsBounded column columnMember)
  case same_terms =>
    rw [places, Affinity.terms, NameSet.toList, NameSet.toList, rowsNamed, columnsNamed,
      List.map_flatMap, List.map_flatMap, List.flatMap_map]
    apply List.flatMap_congr
    intro row rowMember
    rw [List.map_map, List.map_map, List.map_map]
    apply List.map_congr_left
    intro column columnMember
    exact cell_of_affinity affinity classes (rowsBounded row rowMember)
      (columnsBounded column columnMember)

end AffinityMatrix

end Cohesion
