import Cohesion.Names.Map

/-!
Tables with a value for ordered pairs of names, kept row by row. A row may be empty, so a table
also tells which rows exist. Cells are listed in order of row name, then of column name.
-/

namespace Cohesion

variable {Value Result : Type}

structure NameTable (Value : Type) where
  rows : NameMap (NameMap Value)
  deriving DecidableEq

namespace NameTable

def empty : NameTable Value := ⟨∅⟩

instance : EmptyCollection (NameTable Value) := ⟨empty⟩

def row? (table : NameTable Value) (row : String) : Option (NameMap Value) := table.rows.get? row

def get? (table : NameTable Value) (row column : String) : Option Value :=
  (table.row? row).bind fun values => values.get? column

/-- Change one cell; its row comes into being if it was absent. -/
def adjust (table : NameTable Value) (row column : String) (change : Option Value → Value) :
    NameTable Value :=
  ⟨table.rows.adjust row fun values => (values.getD ∅).adjust column change⟩

def insert (table : NameTable Value) (row column : String) (value : Value) : NameTable Value :=
  table.adjust row column fun _ => value

def cells (table : NameTable Value) : List (String × String × Value) :=
  table.rows.toList.flatMap fun (row, values) =>
    values.toList.map fun (column, value) => (row, column, value)

def size (table : NameTable Value) : Nat :=
  table.rows.values.foldr (fun values total => values.size + total) 0

def names (table : NameTable Value) : NameSet :=
  table.rows.toList.foldl (fun found (row, values) => (found.insert row).union values.keys) ∅

def mapValues (transform : Value → Result) (table : NameTable Value) : NameTable Result :=
  ⟨table.rows.mapValues (NameMap.mapValues transform)⟩

@[simp] theorem get?_adjust_self (table : NameTable Value) (row column : String)
    (change : Option Value → Value) :
    (table.adjust row column change).get? row column = some (change (table.get? row column)) := by
  simp only [get?, row?, adjust, NameMap.get?_adjust_self, Option.bind_some]
  cases table.rows.get? row <;> simp

theorem get?_adjust_of_ne (table : NameTable Value) {row column otherRow otherColumn : String}
    (differs : otherRow ≠ row ∨ otherColumn ≠ column) (change : Option Value → Value) :
    (table.adjust row column change).get? otherRow otherColumn =
      table.get? otherRow otherColumn := by
  by_cases same : otherRow = row
  · subst same
    have columnDiffers := differs.resolve_left (fun absurdity => absurdity rfl)
    simp only [get?, row?, adjust, NameMap.get?_adjust_self, Option.bind_some]
    rw [NameMap.get?_adjust_of_ne _ columnDiffers]
    cases table.rows.get? otherRow <;> simp
  · simp only [get?, row?, adjust]
    rw [NameMap.get?_adjust_of_ne _ same]

end NameTable

end Cohesion
