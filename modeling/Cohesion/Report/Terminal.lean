import Cohesion.Analysis.Basic
import Cohesion.Coupling.Outline
import Cohesion.Dendrogram.Outline

/-!
Reports for a terminal. The report is a row of pieces, some of them styled; with colour a styled
piece stands between an escape sequence and the reset, without colour it is its bare text.
-/

namespace Cohesion

inductive Style where
  | bold
  | dimmed
  | cyan
  | boldCyan
  | boldYellow
  deriving DecidableEq

def Style.codes : Style → String
  | bold => "1"
  | dimmed => "2"
  | cyan => "36"
  | boldCyan => "1;36"
  | boldYellow => "1;33"

inductive Piece where
  | plain (text : String)
  | styled (style : Style) (text : String)
  deriving DecidableEq

namespace Piece

def shown (coloured : Bool) : Piece → String
  | plain text => text
  | styled style text =>
      if coloured then "\x1b[" ++ style.codes ++ "m" ++ text ++ "\x1b[0m" else text

def showAll (coloured : Bool) (pieces : List Piece) : String :=
  String.join (pieces.map (shown coloured))

end Piece

def rule (character : Char) : String := String.ofList (List.replicate 43 character)

def sectionTitle (title : String) : List Piece :=
  [.styled .bold title, .plain ("\n" ++ rule '─' ++ "\n")]

namespace Report

def terminalFigures (report : Report Float) : List Piece :=
  [.styled .cyan (rule '═'), .plain "\n", .styled .boldCyan "           ARCHITECTURE REPORT",
    .plain "\n", .styled .cyan (rule '═'), .plain "\n",
    .plain ("Callers: " ++ toString report.callGraph.callers ++
      "  Relations: " ++ toString report.callGraph.relations ++
      "  Classes: " ++ toString report.summary.classCount ++
      "  Edges: " ++ toString report.summary.edgeCount ++ "\n\n")]

def terminalCoupling (report : Report Float) : List Piece :=
  sectionTitle "COUPLING GRAPH" ++
  (if report.coupling.isEmpty then [.styled .dimmed "No cross-class calls", .plain "\n"]
    else [.plain report.coupling.outline]) ++
  [.plain "\n"]

end Report

def Dendrogram.terminal (dendrogram : Dendrogram Float) : List Piece :=
  sectionTitle "DENDROGRAM" ++ [.plain dendrogram.outline, .plain "\n"]

/-- The line of a module, with its place in the list counted from zero. -/
def Module.terminal (module : Module Float) (index : Nat) : List Piece :=
  let note := match module.cohesion with
    | some value => "(cohesion " ++ Decimal.fixed value ++ ")"
    | none => "(single class)"
  [.plain ("  #" ++ toString (index + 1) ++ " \x7b" ++
      String.intercalate ", " module.classes.toList ++ "\x7d "),
    .styled .dimmed note, .plain "\n"]

def Partition.terminal (partition : Partition Float) : List Piece :=
  sectionTitle ("MODULES (threshold " ++ Decimal.plain partition.threshold ++ ", " ++
    toString partition.modules.length ++ " modules)") ++
  (partition.modules.zipIdx.flatMap fun (module, index) => module.terminal index) ++
  (match partition.diagnostic with
    | none => []
    | some diagnostic =>
        [.plain "  ", .styled .boldYellow "note:", .plain (" " ++ diagnostic.text ++ "\n")]) ++
  [.plain "\n"]

namespace Report

def terminalPieces (report : Report Float) : List Piece :=
  report.terminalFigures ++ report.terminalCoupling ++
    (report.dendrogram.map Dendrogram.terminal).getD [] ++
    report.partitions.flatMap Partition.terminal

def terminal (coloured : Bool) (report : Report Float) : String :=
  Piece.showAll coloured report.terminalPieces

end Report

end Cohesion
