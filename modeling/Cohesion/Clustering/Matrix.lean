import Cohesion.Coupling.Affinity

/-!
Affinities laid out by class number. The classes are numbered in name order and the affinity of
each ordered pair of numbers has one cell, row by row.
-/

namespace Cohesion

structure AffinityMatrix (W : Type) where
  size : Nat
  cells : Array W

namespace AffinityMatrix

variable {W : Type} [Weight W]

def ofAffinity (affinity : Affinity W) (classes : NameSet) : AffinityMatrix W where
  size := classes.size
  cells := (classes.toList.flatMap fun row => classes.toList.map (affinity.weight row)).toArray

def get (matrix : AffinityMatrix W) (row column : Nat) : W :=
  matrix.cells.getD (row * matrix.size + column) Weight.zero

/-- The sum of the cells in the given rows and columns, row by row. -/
def between (matrix : AffinityMatrix W) (rows columns : List Nat) : W :=
  Weight.accumulate <| rows.flatMap fun row => columns.map (matrix.get row)

end AffinityMatrix

end Cohesion
