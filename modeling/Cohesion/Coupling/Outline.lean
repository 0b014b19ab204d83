import Cohesion.Coupling.Graph
import Cohesion.Decimal.Layout

/-!
Coupling graphs as text: one line for each edge.
-/

namespace Cohesion

def Edge.outline (edge : Edge Float) : String :=
  edge.source ++ " -> " ++ edge.target ++ " (weight = " ++ Decimal.plain edge.weight ++ ")\n"

def CouplingGraph.outline (graph : CouplingGraph Float) : String :=
  String.join (graph.edges.map Edge.outline)

end Cohesion
