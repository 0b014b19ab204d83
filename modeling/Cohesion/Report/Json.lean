import Cohesion.Analysis.Basic
import Cohesion.Json.Graph

/-!
Reports as JSON. A dendrogram is a flat list of nodes with the place of its root; the classes below
a merged node are left out, since they follow from the list. Parts that are not there have no
member.
-/

namespace Cohesion

def NameSet.toJson (set : NameSet) : Json := .array (set.toList.map Json.text)

def Node.toJson : Node Float → Json
  | .leaf name => .object [("kind", .text "leaf"), ("class", .text name)]
  | .merged left right coupling _ => .object
      [("kind", .text "merged"), ("left", .count left), ("right", .count right),
        ("coupling", .number coupling)]

def Dendrogram.toJson (dendrogram : Dendrogram Float) : Json :=
  .object
    [("nodes", .array (dendrogram.nodes.toList.map Node.toJson)),
      ("root", .count dendrogram.root)]

def Module.toJson (module : Module Float) : Json :=
  .object
    [("classes", module.classes.toJson),
      ("cohesion", (module.cohesion.map Json.number).getD .null)]

def Diagnostic.toJson : Diagnostic → Json
  | tooManyModules moduleCount limit => .object
      [("kind", .text "too_many_modules"), ("module_count", .count moduleCount),
        ("limit", .count limit)]

def Partition.toJson (partition : Partition Float) : Json :=
  .object
    [("threshold", .number partition.threshold),
      ("class_count", .count partition.classCount),
      ("modules", .array (partition.modules.map Module.toJson)),
      ("diagnostic", (partition.diagnostic.map Diagnostic.toJson).getD .null)]

def CallGraphStats.toJson (stats : CallGraphStats) : Json :=
  .object [("callers", .count stats.callers), ("relations", .count stats.relations)]

def CouplingSummary.toJson (summary : CouplingSummary Float) : Json :=
  .object
    [("class_count", .count summary.classCount), ("edge_count", .count summary.edgeCount),
      ("total_weight", .number summary.totalWeight)]

namespace Report

def toJson (report : Report Float) : Json :=
  .object <|
    [("call_graph", report.callGraph.toJson), ("coupling_summary", report.summary.toJson),
      ("coupling", report.coupling.toJson)] ++
    (report.dendrogram.map fun tree => ("dendrogram", tree.toJson)).toList ++
    if report.partitions.isEmpty then []
    else [("partitions", .array (report.partitions.map Partition.toJson))]

def jsonText (report : Report Float) : String := report.toJson.indented 0 ++ "\n"

end Report

end Cohesion
