import Cohesion.Analysis.Basic
import Cohesion.Dendrogram.Outline

/-!
Reports as Markdown: a table of figures, a table of the coupling edges, the dendrogram as a code
block, and a numbered list of modules for each threshold.
-/

namespace Cohesion

def unlines (lines : List String) : String := String.join (lines.map (· ++ "\n"))

def Edge.markdownRow (edge : Edge Float) : String :=
  "| " ++ edge.source ++ " | " ++ edge.target ++ " | " ++ Decimal.fixed edge.weight ++ " |"

namespace Report

def markdownFigures (report : Report Float) : String := unlines
  ["# Architecture Report", "", "| Metric | Value |", "|--------|-------|",
    "| Callers | " ++ toString report.callGraph.callers ++ " |",
    "| Call relations | " ++ toString report.callGraph.relations ++ " |",
    "| Classes | " ++ toString report.summary.classCount ++ " |",
    "| Coupling edges | " ++ toString report.summary.edgeCount ++ " |", ""]

def markdownCoupling (report : Report Float) : String := unlines <|
  ["## Coupling", ""] ++
  (if report.coupling.isEmpty then ["_No cross-class calls._"]
    else ["| From | To | Weight |", "|------|----|--------|"] ++
      report.coupling.edges.map Edge.markdownRow) ++
  [""]

end Report

def Dendrogram.markdown (dendrogram : Dendrogram Float) : String :=
  unlines ["## Dendrogram", "", "```text"] ++ dendrogram.outline ++ unlines ["```", ""]

def Module.markdown (module : Module Float) : String :=
  String.intercalate ", " (module.classes.toList.map fun name => "`" ++ name ++ "`")

/-- The section of one threshold: the modules numbered from one, and the remark if there is one. -/
def Partition.markdown (partition : Partition Float) : String := unlines <|
  ["## Modules (threshold " ++ Decimal.plain partition.threshold ++ ")", ""] ++
  (partition.modules.zipIdx.map fun (module, index) =>
    toString (index + 1) ++ ". " ++ module.markdown) ++
  (match partition.diagnostic with
    | none => []
    | some diagnostic => ["", "> **Note:** " ++ diagnostic.text]) ++
  [""]

def Report.markdown (report : Report Float) : String :=
  report.markdownFigures ++ report.markdownCoupling ++
    (report.dendrogram.map Dendrogram.markdown).getD "" ++
    String.join (report.partitions.map Partition.markdown)

end Cohesion
