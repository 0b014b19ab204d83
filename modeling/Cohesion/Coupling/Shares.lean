import Cohesion.CallGraph
import Cohesion.ClassName
import Cohesion.Coupling.Graph

/-!
Coupling as shares of the calls that cross a class boundary. The weight of an ordered class pair
is the number of call relations from the one class to the other, divided by the number of all
relations between different classes.
-/

namespace Cohesion

/-- The class pairs of all relations whose ends lie in different classes, one per relation. -/
def CallGraph.crossings (calls : CallGraph) (separator : Separator) : List (String × String) :=
  (calls.relations.map fun (caller, callee) =>
    (separator.classOf caller, separator.classOf callee)).filter fun (source, target) =>
      source != target

namespace CouplingGraph

def tally (pairs : List (String × String)) : CouplingGraph Nat :=
  ⟨pairs.foldl (fun table (source, target) =>
    table.adjust source target fun count => count.getD 0 + 1) ∅⟩

variable {W : Type} [Weight W]

/-- The coupling of the classes in a call graph: each class pair with its share of all crossings. -/
def ofCalls (separator : Separator) (calls : CallGraph) : CouplingGraph W :=
  let crossings := calls.crossings separator
  ⟨(tally crossings).table.mapValues (Weight.share crossings.length)⟩

end CouplingGraph

end Cohesion
