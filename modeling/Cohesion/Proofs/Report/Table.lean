import Cohesion.Proofs.Analysis.Stages
import Cohesion.Proofs.Coupling.Edges
import Cohesion.Proofs.Decimal.Characters
import Cohesion.Report.Markdown

/-!
# The coupling table

Class names stand in the coupling table as they are. A bar in a name ends its cell and a line feed
ends its row, so the table has a row with three cells for each edge exactly when no name at the end
of an edge has one of them. A bar behind a backslash does not end a cell, but in a table the two of
them mean a bar alone.
-/

namespace Cohesion

section Pieces

theorem length_split {Item : Type} (isMark : Item → Bool) (items : List Item) :
    (items.splitOnP isMark).length = items.countP isMark + 1 := by
  induction items with
  | nil => rfl
  | cons item others induction =>
      rw [List.splitOnP_cons_eq_if_modifyHead, List.countP_cons]
      split
      · rw [List.length_cons, induction]
      · rw [List.length_modifyHead, induction, Nat.add_zero]

variable {Item Piece : Type} {items : List Item} {pieces : Item → List Piece}

theorem length_le_pieces (nonempty : ∀ item, pieces item ≠ []) :
    items.length ≤ (items.flatMap pieces).length := by
  induction items with
  | nil => exact Nat.zero_le _
  | cons item others induction =>
      have own := List.length_pos_of_ne_nil (nonempty item)
      rw [List.flatMap_cons, List.length_append, List.length_cons]
      omega

/-- Where there are as many pieces as items, no item has more than one. -/
theorem one_piece_each (nonempty : ∀ item, pieces item ≠ [])
    (count : (items.flatMap pieces).length = items.length) :
    ∀ item ∈ items, (pieces item).length = 1 := by
  induction items with
  | nil => exact fun item member => nomatch member
  | cons item others induction =>
      have own := List.length_pos_of_ne_nil (nonempty item)
      have later : others.length ≤ (others.flatMap pieces).length := length_le_pieces nonempty
      rw [List.flatMap_cons, List.length_append, List.length_cons] at count
      exact List.forall_mem_cons.mpr ⟨by omega, induction (by omega)⟩

theorem pieces_of_single {shown : Item → Piece}
    (single : ∀ item ∈ items, pieces item = [shown item]) :
    items.flatMap pieces = items.map shown := by
  rw [List.flatMap_congr single, List.map_eq_flatMap]

end Pieces

section Lines

theorem split_lines_ne_nil (line : String) : line.toList.splitOn '\n' ≠ [] :=
  List.splitOn_ne_nil _ _

theorem split_unlines (lines : List String) : (unlines lines).toList.splitOn '\n' =
    lines.flatMap (fun line => line.toList.splitOn '\n') ++ [[]] := by
  induction lines with
  | nil => rfl
  | cons line others induction =>
      have text : (unlines (line :: others)).toList =
          line.toList ++ '\n' :: (unlines others).toList := by
        simp [unlines, String.join_cons]
      rw [text, List.splitOn_append_cons_self, induction, List.flatMap_cons, List.append_assoc]

theorem newline_not_mem_of_single {line : String} (single : (line.toList.splitOn '\n').length = 1) :
    '\n' ∉ line.toList := by
  rw [List.splitOn_eq_splitOnP, length_split, Nat.add_eq_right, List.countP_eq_zero] at single
  exact fun member => single _ member (beq_self_eq_true _)

end Lines

section Rows

def follow : Char → List Char → List (Char × Char)
  | _, [] => []
  | previous, character :: rest => (previous, character) :: follow character rest

def isBar : Char × Char → Bool
  | (previous, character) => character == '|' && previous != '\\'

/-- The pieces of a text between its bars, escaped ones apart. -/
def barPieces (previous : Char) (text : List Char) : List (List Char) :=
  ((follow previous text).splitOnP isBar).map (List.map Prod.snd)

def hasBar (text : List Char) : Bool := (follow ' ' text).any isBar

def padded (cell : List Char) : List Char := ' ' :: cell ++ [' ']

def tableRow (cells : List (List Char)) : List Char :=
  '|' :: cells.flatMap fun cell => padded cell ++ ['|']

/-- The row begins and ends with a bar, and between its bars there are just the cells. -/
def RowShows (row : List Char) (cells : List (List Char)) : Prop :=
  barPieces ' ' row = [[]] ++ cells.map padded ++ [[]]

theorem padded_injective : Function.Injective padded := by
  intro cell other same
  exact List.append_cancel_right (List.cons.inj same).2

theorem last_padded (cell : List Char) (previous : Char) :
    (padded cell).getLastD previous = ' ' := by
  rw [padded, List.getLastD_concat]

theorem follow_append (previous : Char) (front back : List Char) :
    follow previous (front ++ back) =
      follow previous front ++ follow (front.getLastD previous) back := by
  induction front generalizing previous with
  | nil => rfl
  | cons character rest induction =>
      rw [List.cons_append, follow, induction, follow, List.cons_append, List.getLastD_cons]

theorem map_follow (previous : Char) (text : List Char) :
    (follow previous text).map Prod.snd = text := by
  induction text generalizing previous with
  | nil => rfl
  | cons character rest induction => rw [follow, List.map_cons, induction]

theorem bar_pieces_ne_nil (previous : Char) (text : List Char) : barPieces previous text ≠ [] := by
  simp [barPieces, List.splitOnP_ne_nil]

theorem bar_pieces_at_bar {previous : Char} {front : List Char} (back : List Char)
    (plain : front.getLastD previous ≠ '\\') :
    barPieces previous (front ++ '|' :: back) = barPieces previous front ++ barPieces '|' back := by
  have bar : isBar (front.getLastD previous, '|') = true := by simpa [isBar] using plain
  rw [barPieces, follow_append, follow, List.splitOnP_append_cons _ _ bar, List.map_append]
  rfl

theorem bar_pieces_row (cells : List (List Char)) : barPieces ' ' (tableRow cells) =
    [[]] ++ cells.flatMap (fun cell => barPieces '|' (padded cell)) ++ [[]] := by
  have behind : barPieces '|' (cells.flatMap fun cell => padded cell ++ ['|']) =
      cells.flatMap (fun cell => barPieces '|' (padded cell)) ++ [[]] := by
    induction cells with
    | nil => rfl
    | cons cell others induction =>
        rw [List.flatMap_cons, List.append_assoc, List.singleton_append,
          bar_pieces_at_bar _ (by rw [last_padded]; decide), induction, List.flatMap_cons,
          List.append_assoc]
  have plain : ([] : List Char).getLastD ' ' ≠ '\\' := by decide
  have first : barPieces ' ' (tableRow cells) = barPieces ' ' [] ++
      barPieces '|' (cells.flatMap fun cell => padded cell ++ ['|']) :=
    bar_pieces_at_bar _ plain
  rw [first, behind, List.append_assoc]
  rfl

/-- The padding brings no bar and escapes none. -/
theorem any_bar_padded (cell : List Char) : (follow '|' (padded cell)).any isBar = hasBar cell := by
  rw [padded, follow_append]
  simp [follow, isBar, hasBar]

theorem bar_pieces_single_iff (cell : List Char) :
    (barPieces '|' (padded cell)).length = 1 ↔ hasBar cell = false := by
  rw [barPieces, List.length_map, length_split, Nat.add_eq_right, List.countP_eq_zero,
    ← any_bar_padded, List.any_eq_false]

theorem bar_pieces_single {cell : List Char} (free : hasBar cell = false) :
    barPieces '|' (padded cell) = [padded cell] := by
  rw [← any_bar_padded, List.any_eq_false] at free
  rw [barPieces, List.splitOnP_eq_singleton (fun pair member => by simpa using free pair member),
    List.map_singleton, map_follow]

/-- A row that shows as many cells as were written shows the written ones, none with a bar in it. -/
theorem row_shows_iff {cells shown : List (List Char)} (count : shown.length = cells.length) :
    RowShows (tableRow cells) shown ↔ shown = cells ∧ ∀ cell ∈ cells, hasBar cell = false := by
  rw [RowShows, bar_pieces_row, List.append_cancel_right_eq, List.append_cancel_left_eq]
  constructor
  · intro same
    -- Every cell is at least one piece, so the number of pieces leaves just one for each.
    have each := one_piece_each (fun cell => bar_pieces_ne_nil '|' (padded cell))
      (by rw [same, List.length_map, count])
    have free : ∀ cell ∈ cells, hasBar cell = false :=
      fun cell member => (bar_pieces_single_iff cell).mp (each cell member)
    rw [pieces_of_single fun cell member => bar_pieces_single (free cell member)] at same
    exact ⟨(padded_injective.list_map same).symm, free⟩
  · rintro ⟨rfl, free⟩
    exact pieces_of_single fun cell member => bar_pieces_single (free cell member)

end Rows

section Escapes

/-- What the text of a cell means: a bar behind a backslash is a bar. -/
def unescaped : List Char → List Char
  | '\\' :: '|' :: rest => '|' :: unescaped rest
  | character :: rest => character :: unescaped rest
  | [] => []

theorem unescaped_of_not_mem {text : List Char} (free : '|' ∉ text) : unescaped text = text := by
  fun_induction unescaped text with
  | case1 rest _ => simp at free
  | case2 character rest _ induction =>
      rw [induction fun member => free (List.mem_cons_of_mem _ member)]
  | case3 => rfl

theorem has_bar_of_not_mem {text : List Char} (free : '|' ∉ text) : hasBar text = false := by
  rw [hasBar, List.any_eq_false]
  rintro ⟨previous, character⟩ member bar
  have isText := List.mem_map_of_mem member (f := Prod.snd)
  rw [map_follow] at isText
  simp only [isBar, Bool.and_eq_true, beq_iff_eq] at bar
  exact free (bar.1 ▸ isText)

/-- A text whose bars are all escaped and that means itself has no bar. -/
theorem not_mem_of_unescaped {previous : Char} {text : List Char}
    (first : previous = '\\' → text.head? ≠ some '|')
    (free : (follow previous text).any isBar = false) (same : unescaped text = text) :
    '|' ∉ text := by
  fun_induction unescaped text generalizing previous with
  -- The escape goes, so what is left begins with a bar and the text with a backslash.
  | case1 rest _ => exact absurd (List.cons.inj same).1 (by decide)
  | case2 character rest noEscape induction =>
      rw [follow, List.any_cons, Bool.or_eq_false_iff] at free
      have later : '|' ∉ rest := by
        refine induction ?_ free.2 (List.cons.inj same).2
        rintro rfl behind
        obtain ⟨others, rfl⟩ := List.head?_eq_some_iff.mp behind
        exact noEscape others rfl rfl
      have own : character ≠ '|' := by
        rintro rfl
        by_cases escape : previous = '\\'
        · exact first escape rfl
        · simp [isBar, escape] at free
      simp [later, Ne.symm own]
  | case3 => exact List.not_mem_nil

end Escapes

def Edge.cells (edge : Edge Float) : List (List Char) :=
  [edge.source.toList, edge.target.toList, (Decimal.fixed edge.weight).toList]

theorem markdown_row (edge : Edge Float) : edge.markdownRow.toList = tableRow edge.cells := by
  simp [Edge.markdownRow, tableRow, Edge.cells, padded]

section Tables

def tableHead : List String :=
  ["## Coupling", "", "| From | To | Weight |", "|------|----|--------|"]

/-- The coupling section is the header with a row for each edge, in order, whose cells are read as
source, target and weight of the edge, and a blank line. -/
def Report.TableShows (report : Report Float) (meaning : List Char → List Char) : Prop :=
  ∃ rows : List (List Char),
    report.markdownCoupling.toList.splitOn '\n' =
      tableHead.map String.toList ++ rows ++ [[], []] ∧
    rows.length = report.coupling.edgeCount ∧
    List.Forall₂ (fun row edge => ∃ shown, RowShows row shown ∧ shown.map meaning = edge.cells)
      rows report.coupling.edges

variable {report : Report Float}

theorem split_markdown_coupling (edges : report.coupling.isEmpty = false) :
    report.markdownCoupling.toList.splitOn '\n' = tableHead.map String.toList ++
      report.coupling.edges.flatMap (fun edge => edge.markdownRow.toList.splitOn '\n') ++
        [[], []] := by
  have lines : report.markdownCoupling =
      unlines (tableHead ++ report.coupling.edges.map Edge.markdownRow ++ [""]) := by
    simp [Report.markdownCoupling, edges, tableHead]
  rw [lines, split_unlines, List.flatMap_append, List.flatMap_append, List.flatMap_map,
    List.append_assoc, List.append_assoc, List.append_assoc]
  rfl

/-- A table shows its edges if all rows stay lines and all cells keep their bars and meaning. -/
theorem table_shows_iff (someEdge : report.coupling.isEmpty = false)
    (meaning : List Char → List Char) :
    report.TableShows meaning ↔ ∀ edge ∈ report.coupling.edges,
      '\n' ∉ edge.markdownRow.toList ∧ (∀ cell ∈ edge.cells, hasBar cell = false) ∧
        edge.cells.map meaning = edge.cells := by
  rw [Report.TableShows, split_markdown_coupling someEdge]
  constructor
  · rintro ⟨rows, same, count, shown⟩
    -- The same count as for cells: every row is at least one line.
    rw [List.append_cancel_right_eq, List.append_cancel_left_eq] at same
    have each := one_piece_each (fun edge : Edge Float => split_lines_ne_nil edge.markdownRow)
      (by rw [same, count, CouplingGraph.edge_count_eq])
    have oneLine : ∀ edge ∈ report.coupling.edges, '\n' ∉ edge.markdownRow.toList :=
      fun edge member => newline_not_mem_of_single (each edge member)
    have lines := pieces_of_single fun edge member =>
      List.splitOn_eq_singleton (oneLine edge member)
    rw [← same, lines, List.forall₂_map_left_iff, List.forall₂_same] at shown
    intro edge member
    obtain ⟨cells, row, means⟩ := shown edge member
    have length : cells.length = edge.cells.length := by rw [← means, List.length_map]
    rw [markdown_row, row_shows_iff length] at row
    exact ⟨oneLine edge member, row.2, row.1 ▸ means⟩
  · intro kept
    refine ⟨report.coupling.edges.map fun edge => edge.markdownRow.toList, ?_, ?_, ?_⟩
    · have lines := pieces_of_single fun edge member =>
        List.splitOn_eq_singleton (kept edge member).1
      rw [lines]
    · rw [List.length_map, CouplingGraph.edge_count_eq]
    · rw [List.forall₂_map_left_iff, List.forall₂_same]
      intro edge member
      obtain ⟨_, free, means⟩ := kept edge member
      refine ⟨edge.cells, ?_, means⟩
      rw [markdown_row]
      exact (row_shows_iff rfl).mpr ⟨rfl, free⟩

/-- The weight has neither bars nor line feeds, so an edge depends on its names alone. -/
theorem edge_kept_iff (edge : Edge Float) {meaning : List Char → List Char}
    (weightKept : meaning (Decimal.fixed edge.weight).toList = (Decimal.fixed edge.weight).toList) :
    ('\n' ∉ edge.markdownRow.toList ∧ (∀ cell ∈ edge.cells, hasBar cell = false) ∧
        edge.cells.map meaning = edge.cells) ↔
      ∀ name ∈ [edge.source, edge.target], '\n' ∉ name.toList ∧
        hasBar name.toList = false ∧ meaning name.toList = name.toList := by
  have oneLine := Decimal.not_mem_fixed '\n' rfl edge.weight
  have noBar := has_bar_of_not_mem (Decimal.not_mem_fixed '|' rfl edge.weight)
  have lines : '\n' ∉ edge.markdownRow.toList ↔
      '\n' ∉ edge.source.toList ∧ '\n' ∉ edge.target.toList := by
    simp [Edge.markdownRow, oneLine]
  rw [lines]
  simp only [Edge.cells, List.forall_mem_cons, List.map_cons, List.cons.injEq, noBar, weightKept]
  tauto

theorem unescaped_name_iff (text : List Char) :
    hasBar text = false ∧ unescaped text = text ↔ '|' ∉ text := by
  constructor
  · rintro ⟨free, same⟩
    exact not_mem_of_unescaped (fun escape => absurd escape (by decide)) free same
  · exact fun free => ⟨has_bar_of_not_mem free, unescaped_of_not_mem free⟩

/-- The table shows the edges exactly when no name at an end of an edge has a line feed or a bar
that ends a cell, and it shows them to a reader of escapes when no name has any bar. -/
theorem coupling_table_shows_edges (someEdge : report.coupling.isEmpty = false) :
    (report.TableShows id ↔ ∀ edge ∈ report.coupling.edges, ∀ name ∈ [edge.source, edge.target],
      '\n' ∉ name.toList ∧ hasBar name.toList = false) ∧
    (report.TableShows unescaped ↔ ∀ edge ∈ report.coupling.edges,
      ∀ name ∈ [edge.source, edge.target], '\n' ∉ name.toList ∧ '|' ∉ name.toList) := by
  rw [table_shows_iff someEdge, table_shows_iff someEdge]
  constructor
  · refine forall₂_congr fun edge _ => (edge_kept_iff edge rfl).trans ?_
    simp only [id_eq, and_true]
  · have weight (edge : Edge Float) := unescaped_of_not_mem
      (Decimal.not_mem_fixed '|' rfl edge.weight)
    refine forall₂_congr fun edge _ => (edge_kept_iff edge (weight edge)).trans ?_
    exact forall₂_congr fun name _ => and_congr_right' (unescaped_name_iff name.toList)

def stackCalls : CallGraph :=
  .ofPairs [("Stack.push", "Node.new"), ("Stack.push", "Stack.grow"), ("Node.new", "Heap.take")]

def stackReport : Report Float := couplingReport .standard stackCalls

theorem stack_table_shows_edges : stackReport.coupling.isEmpty = false ∧
    stackReport.TableShows id ∧ stackReport.TableShows unescaped := by
  have someEdge : stackReport.coupling.isEmpty = false := by decide +kernel
  have shows_edges := coupling_table_shows_edges someEdge
  refine ⟨someEdge, shows_edges.1.mpr ?_, shows_edges.2.mpr ?_⟩
  · decide +kernel
  · decide +kernel

def operatorCalls : CallGraph := .ofPairs [("operator|.call", "B.run")]

def operatorReport : Report Float := couplingReport .standard operatorCalls

def operatorRow : String := "| operator| | B | 1.0000 |"

def operatorPieces : List String := ["", " operator", " ", " B ", " 1.0000 ", ""]

/-- The bar in the name of an operator ends its cell, so the row of the only edge has four cells. -/
theorem operator_row_has_four_cells :
    (analyse operatorCalls ⟨.standard, .coupling, []⟩).2 = .ok operatorReport ∧
      operatorReport.coupling.isEmpty = false ∧
      operatorReport.markdownCoupling = unlines (tableHead ++ [operatorRow, ""]) ∧
      barPieces ' ' operatorRow.toList = operatorPieces.map String.toList ∧
      ∀ meaning, ¬operatorReport.TableShows meaning := by
  have someEdge : operatorReport.coupling.isEmpty = false := by decide +kernel
  have listed : ⟨"operator|", "B", 1⟩ ∈ operatorReport.coupling.edges := by decide +kernel
  refine ⟨coupling_result _ _ _, someEdge, by decide +kernel, by decide, ?_⟩
  intro meaning shown
  have kept := (table_shows_iff someEdge meaning).mp shown _ listed
  have noBar := kept.2.1 "operator|".toList List.mem_cons_self
  exact absurd noBar (by decide)

end Tables

end Cohesion
