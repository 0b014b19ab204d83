import Cohesion.Coupling.Graph
import Cohesion.Pairs

/-!
Undirected affinity between classes: both directions of a class pair added up. An edge from a
class to itself counts once. Sets of classes are measured by the affinities between two sets and
by the mean affinity within one set.
-/

namespace Cohesion

/-- Affinities of class pairs, held for both orders of a pair. -/
structure Affinity (W : Type) where
  table : NameTable W

namespace Affinity

variable {W : Type} [Weight W]

def accrue (affinity : Affinity W) (row column : String) (weight : W) : Affinity W :=
  ⟨affinity.table.adjust row column fun old => Weight.add (old.getD Weight.zero) weight⟩

/-- Count an edge for both orders of its ends, or once when it is a loop. -/
def addEdge (affinity : Affinity W) (edge : Edge W) : Affinity W :=
  let forward := affinity.accrue edge.source edge.target edge.weight
  if edge.source = edge.target then forward
  else forward.accrue edge.target edge.source edge.weight

def ofGraph (graph : CouplingGraph W) : Affinity W := graph.edges.foldl addEdge ⟨∅⟩

/-- The affinity of two classes, zero for classes that no edge joins. -/
def weight (affinity : Affinity W) (first second : String) : W :=
  (affinity.table.get? first second).getD Weight.zero

omit [Weight W] in
def neighbours (affinity : Affinity W) (name : String) : List (String × W) :=
  ((affinity.table.row? name).getD ∅).toList

/-- The sum of affinities from each class of one set to each class of another, row by row. -/
def between (affinity : Affinity W) (rows columns : NameSet) : W :=
  Weight.accumulate <| rows.toList.flatMap fun row => columns.toList.map (affinity.weight row)

/-- The mean affinity over all unordered pairs of a set; fewer than two classes have no pair. -/
def average? (affinity : Affinity W) (classes : NameSet) : Option W :=
  if classes.size ≤ 1 then none
  else
    let inner := pairs classes.toList
    some (Weight.divCount
      (Weight.accumulate (inner.map fun (first, second) => affinity.weight first second))
      inner.length)

end Affinity

end Cohesion
