import Cohesion.Proofs.Coupling.Sums
import Cohesion.Proofs.Decimal.Characters
import Cohesion.Report.Text

/-!
# Colour is only an addition

Colours stand in a terminal report as control sequences around single pieces of text. Nothing else of
the report has an escape character, unless a class name has one, so the report without its control
sequences is the uncoloured report, and every piece is switched back before the next one begins and
before its line ends.
-/

namespace Cohesion

section Controls

def isCode (character : Char) : Bool := character.isDigit || character = ';'

def control (codes : List Char) : List Char := '\x1b' :: '[' :: codes ++ ['m']

def reset : List Char := control ['0']

def afterControl? : List Char → Option (List Char)
  | '\x1b' :: '[' :: rest =>
      match rest.dropWhile isCode with
      | 'm' :: after => some after
      | _ => none
  | _ => none

theorem after_control_shorter {text after : List Char} (found : afterControl? text = some after) :
    after.length < text.length := by
  unfold afterControl? at found
  split at found
  · next rest =>
      split at found
      · next dropped =>
          cases found
          have suffix := (List.dropWhile_suffix isCode (l := rest)).length_le
          rw [dropped] at suffix
          simp only [List.length_cons] at suffix ⊢
          omega
      · cases found
  · cases found

def withoutControls : List Char → List Char
  | [] => []
  | character :: rest =>
      match _found : afterControl? (character :: rest) with
      | some after => withoutControls after
      | none => character :: withoutControls rest
termination_by text => text.length
decreasing_by
  · exact after_control_shorter _found
  · exact Nat.lt_succ_self _

@[simp] theorem without_controls_nil : withoutControls [] = [] := by rw [withoutControls]

theorem without_controls_cons (character : Char) (rest : List Char) :
    withoutControls (character :: rest) = match afterControl? (character :: rest) with
      | some after => withoutControls after
      | none => character :: withoutControls rest := by
  rw [withoutControls]
  cases afterControl? (character :: rest) <;> rfl

variable {text codes rest : List Char}

theorem without_controls_text (free : '\x1b' ∉ text) :
    withoutControls (text ++ rest) = text ++ withoutControls rest := by
  induction text with
  | nil => rfl
  | cons character others induction =>
      rw [List.mem_cons, not_or] at free
      have none_there : afterControl? (character :: (others ++ rest)) = none := by
        unfold afterControl?
        split
        · next same =>
            rw [List.cons.injEq] at same
            exact absurd same.1.symm free.1
        · rfl
      rw [List.cons_append, without_controls_cons, none_there, List.cons_append, induction free.2]

theorem without_controls_control (numbers : ∀ code ∈ codes, isCode code = true) :
    withoutControls (control codes ++ rest) = withoutControls rest := by
  have dropped : (codes ++ 'm' :: rest).dropWhile isCode = 'm' :: rest := by
    rw [List.dropWhile_append_of_pos numbers]
    rfl
  have sequence : control codes ++ rest = '\x1b' :: '[' :: (codes ++ 'm' :: rest) := by
    simp [control]
  have found : afterControl? (control codes ++ rest) = some rest := by
    rw [sequence, afterControl?, dropped]
    rfl
  rw [sequence] at found ⊢
  rw [without_controls_cons, found]

/-- Every control sequence but the reset is followed by text on its line and then by the reset. -/
def SwitchedBack (text : List Char) : Prop :=
  ∀ before codes after, text = before ++ (control codes ++ after) →
    (∀ code ∈ codes, isCode code = true) → codes ≠ ['0'] →
    ∃ styled rest, after = styled ++ (reset ++ rest) ∧ '\x1b' ∉ styled ∧ '\n' ∉ styled

/-- A control sequence behind a text without escape characters lies in what follows the text. -/
theorem behind_text (free : '\x1b' ∉ text) {before after : List Char}
    (same : text ++ rest = before ++ (control codes ++ after)) :
    ∃ more, before = text ++ more ∧ rest = more ++ (control codes ++ after) := by
  rcases List.append_eq_append_iff.mp same with ⟨more, front, back⟩ | ⟨inside, front, back⟩
  · exact ⟨more, front, back⟩
  · cases inside with
    | nil =>
        rw [List.append_nil] at front
        exact ⟨[], by rw [front, List.append_nil], back.symm⟩
    | cons character others =>
        have first : '\x1b' = character := (List.cons.inj back).1
        rw [front, first] at free
        exact absurd (List.mem_append_right _ List.mem_cons_self) free

/-- A control sequence that begins where another one does is the same one. -/
theorem control_cancel {others after : List Char} (numbers : ∀ code ∈ codes, isCode code = true)
    (otherNumbers : ∀ code ∈ others, isCode code = true)
    (same : control codes ++ rest = control others ++ after) : codes = others ∧ rest = after := by
  have runs : codes ++ 'm' :: rest = others ++ 'm' :: after := by
    simpa [control] using same
  have stops (tail : List Char) : Stops isCode ('m' :: tail) := by
    rintro character ⟨⟩
    rfl
  obtain ⟨equal, tails⟩ := cancel_run numbers otherNumbers (stops rest) (stops after) runs
  exact ⟨equal, (List.cons.inj tails).2⟩

theorem behind_control (numbers : ∀ code ∈ codes, isCode code = true)
    {before others after : List Char} (otherNumbers : ∀ code ∈ others, isCode code = true)
    (same : control codes ++ rest = before ++ (control others ++ after)) :
    (codes = others ∧ rest = after) ∨
      ∃ more, rest = more ++ (control others ++ after) := by
  cases before with
  | nil => exact .inl (control_cancel numbers otherNumbers same)
  | cons character front =>
      have tails : ('[' :: codes ++ ['m']) ++ rest = front ++ (control others ++ after) :=
        (List.cons.inj same).2
      have free : '\x1b' ∉ '[' :: codes ++ ['m'] := by
        have noCode : '\x1b' ∉ codes := fun member => absurd (numbers _ member) (by decide)
        simp [noCode]
      obtain ⟨more, _, behind⟩ := behind_text free tails
      exact .inr ⟨more, behind⟩

theorem SwitchedBack.prepend_text (back : SwitchedBack rest) (free : '\x1b' ∉ text) :
    SwitchedBack (text ++ rest) := by
  intro before codes after same
  obtain ⟨more, _, behind⟩ := behind_text free same
  exact back more codes after behind

theorem SwitchedBack.prepend_reset (back : SwitchedBack rest) : SwitchedBack (reset ++ rest) := by
  intro before codes after same numbers notReset
  rcases behind_control (by simp [isCode]) numbers same with ⟨isReset, _⟩ | ⟨more, behind⟩
  · exact absurd isReset.symm notReset
  · exact back more codes after behind numbers notReset

theorem SwitchedBack.prepend_styled (back : SwitchedBack rest)
    (numbers : ∀ code ∈ codes, isCode code = true) (free : '\x1b' ∉ text)
    (oneLine : '\n' ∉ text) : SwitchedBack (control codes ++ (text ++ (reset ++ rest))) := by
  intro before others after same otherNumbers notReset
  rcases behind_control numbers otherNumbers same with ⟨_, rfl⟩ | ⟨more, behind⟩
  · exact ⟨text, rest, rfl, free, oneLine⟩
  · exact (back.prepend_reset.prepend_text free) more others after behind otherNumbers notReset

theorem switched_back_nil : SwitchedBack [] := by
  intro before codes after same
  have lengths := congrArg List.length same
  simp [control] at lengths

end Controls

namespace Piece

/-- No escape characters in a piece, and only one line in a styled one. -/
def Clean : Piece → Prop
  | plain text => '\x1b' ∉ text.toList
  | styled _ text => '\x1b' ∉ text.toList ∧ '\n' ∉ text.toList

theorem codes_numbers (style : Style) : ∀ code ∈ style.codes.toList, isCode code = true := by
  cases style <;> simp [Style.codes, isCode]

theorem shown_styled (style : Style) (text : String) : (shown true (.styled style text)).toList =
    control style.codes.toList ++ (text.toList ++ reset) := by
  simp [shown, control, reset]

theorem show_all_cons (coloured : Bool) (piece : Piece) (pieces : List Piece) :
    (showAll coloured (piece :: pieces)).toList =
      (piece.shown coloured).toList ++ (showAll coloured pieces).toList := by
  rw [showAll, List.map_cons, String.join_cons, String.toList_append]
  rfl

theorem without_controls_show_all {pieces : List Piece} (clean : ∀ piece ∈ pieces, piece.Clean) :
    withoutControls (showAll true pieces).toList = (showAll false pieces).toList := by
  induction pieces with
  | nil => exact without_controls_nil
  | cons piece others induction =>
      obtain ⟨own, later⟩ := List.forall_mem_cons.mp clean
      rw [show_all_cons, show_all_cons, ← induction later]
      cases piece with
      | plain text => exact without_controls_text own
      | styled style text =>
          rw [shown_styled, List.append_assoc, List.append_assoc,
            without_controls_control (codes_numbers style), without_controls_text own.1, reset,
            without_controls_control (by simp [isCode])]
          rfl

theorem show_all_switched_back {pieces : List Piece} (clean : ∀ piece ∈ pieces, piece.Clean) :
    SwitchedBack (showAll true pieces).toList := by
  induction pieces with
  | nil => exact switched_back_nil
  | cons piece others induction =>
      obtain ⟨own, later⟩ := List.forall_mem_cons.mp clean
      rw [show_all_cons]
      cases piece with
      | plain text => exact (induction later).prepend_text own
      | styled style text =>
          rw [shown_styled, List.append_assoc, List.append_assoc]
          exact (induction later).prepend_styled (codes_numbers style) own.1 own.2

end Piece

def Dendrogram.leafNames (dendrogram : Dendrogram Float) : List String :=
  dendrogram.nodes.toList.filterMap fun
    | .leaf name => some name
    | .merged .. => none

def Partition.classNames (partition : Partition Float) : List String :=
  partition.modules.flatMap fun module => module.classes.toList

def Report.classNames (report : Report Float) : List String :=
  report.coupling.classes.toList ++ (report.dendrogram.map Dendrogram.leafNames).getD [] ++
    report.partitions.flatMap Partition.classNames

section Sections

open Piece Decimal

theorem clean_append {pieces others : List Piece} (clean : ∀ piece ∈ pieces, piece.Clean)
    (othersClean : ∀ piece ∈ others, piece.Clean) : ∀ piece ∈ pieces ++ others, piece.Clean :=
  List.forall_mem_append.mpr ⟨clean, othersClean⟩

theorem not_mem_rule {mark character : Char} (differs : mark ≠ character) :
    mark ∉ (rule character).toList := by
  rw [rule, String.toList_ofList, List.mem_replicate]
  exact fun member => differs member.2

theorem clean_title {title : String} (free : '\x1b' ∉ title.toList)
    (oneLine : '\n' ∉ title.toList) : ∀ piece ∈ sectionTitle title, piece.Clean := by
  have line : '\x1b' ∉ (rule '─').toList := not_mem_rule (by decide)
  simp [sectionTitle, Clean, line, free, oneLine]

theorem clean_figures (report : Report Float) : ∀ piece ∈ report.terminalFigures, piece.Clean := by
  have number := not_mem_digits '\x1b' rfl
  have line : '\x1b' ∉ (rule '═').toList := not_mem_rule (by decide)
  have oneLine : '\n' ∉ (rule '═').toList := not_mem_rule (by decide)
  simp [Report.terminalFigures, Clean, line, oneLine, number]

theorem escape_free_outline {graph : CouplingGraph Float}
    (free : ∀ name ∈ graph.classes.toList, '\x1b' ∉ name.toList) :
    '\x1b' ∉ graph.outline.toList := by
  have number := not_mem_plain '\x1b' rfl
  rw [CouplingGraph.outline, String.toList_join, List.mem_flatMap]
  rintro ⟨line, listed, member⟩
  obtain ⟨edge, isEdge, rfl⟩ := List.mem_map.mp listed
  obtain ⟨source, target⟩ := CouplingGraph.ends_mem_classes isEdge
  revert member
  simp [Edge.outline, number, free _ source, free _ target]

theorem clean_coupling {report : Report Float}
    (free : ∀ name ∈ report.coupling.classes.toList, '\x1b' ∉ name.toList) :
    ∀ piece ∈ report.terminalCoupling, piece.Clean := by
  refine clean_append (clean_append (clean_title (by simp) (by simp)) ?_) (by simp [Clean])
  split
  · simp [Clean]
  · simp [Clean, escape_free_outline free]

theorem escape_free_label {node : Node Float}
    (free : ∀ name, node = .leaf name → '\x1b' ∉ name.toList) : '\x1b' ∉ node.label.toList := by
  cases node with
  | leaf name => exact free name rfl
  | merged left right coupling classes =>
      have number := not_mem_fixed '\x1b' rfl coupling
      have count := not_mem_digits '\x1b' rfl classes.size
      simp [Node.label, number, count]

theorem escape_free_lines {arena : Arena Float}
    (free : ∀ name, .leaf name ∈ arena.nodes → '\x1b' ∉ name.toList) (steps : Nat)
    (waiting : List (Nat × Nat)) :
    ∀ line ∈ arena.outlineSteps steps waiting, '\x1b' ∉ line.toList := by
  induction steps generalizing waiting with
  | zero => simp [Arena.outlineSteps]
  | succ steps induction =>
      cases waiting with
      | nil => simp [Arena.outlineSteps]
      | cons head others =>
          rw [Arena.outlineSteps]
          split
          · exact induction others
          · next node stored =>
              refine List.forall_mem_cons.mpr ⟨?_, induction _⟩
              have label : '\x1b' ∉ node.label.toList := escape_free_label fun name same =>
                free name (same ▸ Array.mem_of_getElem? stored)
              simp [outlineLine, label]

theorem clean_dendrogram {dendrogram : Dendrogram Float}
    (free : ∀ name ∈ dendrogram.leafNames, '\x1b' ∉ name.toList) :
    ∀ piece ∈ dendrogram.terminal, piece.Clean := by
  have leaves : ∀ name, .leaf name ∈ dendrogram.nodes → '\x1b' ∉ name.toList := by
    intro name stored
    exact free name (List.mem_filterMap.mpr ⟨_, stored.val, rfl⟩)
  have outline : '\x1b' ∉ dendrogram.outline.toList := by
    rw [Dendrogram.outline, String.toList_join, List.mem_flatMap]
    rintro ⟨line, listed, member⟩
    exact escape_free_lines leaves _ _ line listed member
  refine clean_append (clean_title (by simp) (by simp)) ?_
  simp [Clean, outline]

theorem not_mem_intercalate {mark : Char} {between : List Char} {parts : List (List Char)}
    (free : mark ∉ between) (partsFree : ∀ part ∈ parts, mark ∉ part) :
    mark ∉ between.intercalate parts := by
  induction parts with
  | nil => simp
  | cons part others induction =>
      obtain ⟨own, later⟩ := List.forall_mem_cons.mp partsFree
      cases others with
      | nil => simpa using own
      | cons next more =>
          rw [List.intercalate_cons_cons, List.mem_append, List.mem_append]
          simp [own, free, induction later]

theorem clean_module {module : Module Float}
    (free : ∀ name ∈ module.classes.toList, '\x1b' ∉ name.toList) (index : Nat) :
    ∀ piece ∈ module.terminal index, piece.Clean := by
  have number := not_mem_digits '\x1b' rfl
  have value := not_mem_fixed '\x1b' rfl
  have oneLine := not_mem_fixed '\n' rfl
  have names : '\x1b' ∉ [',', ' '].intercalate (module.classes.toList.map String.toList) :=
    not_mem_intercalate (by simp) (by simpa using free)
  cases kept : module.cohesion with
  | none => simp [Module.terminal, kept, Clean, number, names]
  | some cohesion => simp [Module.terminal, kept, Clean, number, names, value, oneLine]

theorem escape_free_remark (diagnostic : Diagnostic) : '\x1b' ∉ diagnostic.text.toList := by
  have number := not_mem_digits '\x1b' rfl
  cases diagnostic with
  | tooManyModules count limit =>
      have text : (Diagnostic.tooManyModules count limit).text =
          "module count (" ++ toString count ++ ") exceeds half the class count (" ++
            toString limit ++ "); try a higher threshold" := rfl
      rw [text]
      simp [number]

theorem clean_partition {partition : Partition Float}
    (free : ∀ name ∈ partition.classNames, '\x1b' ∉ name.toList) :
    ∀ piece ∈ partition.terminal, piece.Clean := by
  have number := not_mem_digits '\x1b' rfl
  have threshold := not_mem_plain '\x1b' rfl partition.threshold
  have oneLine := not_mem_digits '\n' rfl
  have thresholdLine := not_mem_plain '\n' rfl partition.threshold
  refine clean_append (clean_append (clean_append ?_ ?_) ?_) (by simp [Clean])
  · apply clean_title
    · simp [number, threshold]
    · simp [oneLine, thresholdLine]
  · intro piece member
    obtain ⟨⟨module, index⟩, listed, shown⟩ := List.mem_flatMap.mp member
    have isModule : module ∈ partition.modules := List.fst_mem_of_mem_zipIdx listed
    refine clean_module (fun name isClass => free name ?_) index piece shown
    exact List.mem_flatMap.mpr ⟨module, isModule, isClass⟩
  · cases partition.diagnostic with
    | none => simp
    | some diagnostic => simp [Clean, escape_free_remark diagnostic]

/-- The pieces of a report are clean when its class names have no escape characters. -/
theorem clean_report {report : Report Float}
    (free : ∀ name ∈ report.classNames, '\x1b' ∉ name.toList) :
    ∀ piece ∈ report.terminalPieces, piece.Clean := by
  simp only [Report.classNames, List.forall_mem_append] at free
  obtain ⟨⟨coupling, tree⟩, partitions⟩ := free
  refine clean_append (clean_append (clean_append (clean_figures report) (clean_coupling coupling))
    ?_) ?_
  · cases kept : report.dendrogram with
    | none => simp
    | some dendrogram =>
        rw [kept] at tree
        exact clean_dendrogram tree
  · intro piece member
    obtain ⟨partition, listed, shown⟩ := List.mem_flatMap.mp member
    refine clean_partition (fun name named => partitions name ?_) piece shown
    exact List.mem_flatMap.mpr ⟨partition, listed, named⟩

end Sections

/-- Colour adds control sequences to the terminal report and nothing else, each of them followed on
its line by the reset, and the other formats have no colour. -/
theorem colour_is_only_added {report : Report Float}
    (free : ∀ name ∈ report.classNames, '\x1b' ∉ name.toList) :
    withoutControls (report.text .terminal true).toList = (report.text .terminal false).toList ∧
      SwitchedBack (report.text .terminal true).toList ∧
      ∀ format, format ≠ .terminal → report.text format true = report.text format false := by
  have clean := clean_report free
  refine ⟨Piece.without_controls_show_all clean, Piece.show_all_switched_back clean, ?_⟩
  intro format plain
  cases format with
  | json => rfl
  | markdown => rfl
  | terminal => exact absurd rfl plain

def mutualCoupling : CouplingGraph Float := .ofEdges [⟨"A", "Bü", 0.5⟩, ⟨"Bü", "A", 0.5⟩]

/-- A report with all sections: two classes, each of them a module, and a remark on that. -/
def mutualReport : Report Float where
  callGraph := ⟨2, 2⟩
  summary := mutualCoupling.summary
  coupling := mutualCoupling
  dendrogram := mutualCoupling.cluster?
  partitions := [⟨2.5, 2, [⟨NameSet.singleton "A", none⟩, ⟨NameSet.singleton "Bü", none⟩],
    some (.tooManyModules 2 1)⟩]

theorem mutual_report_coloured : (∀ name ∈ mutualReport.classNames, '\x1b' ∉ name.toList) ∧
    withoutControls (mutualReport.text .terminal true).toList =
        (mutualReport.text .terminal false).toList ∧
      SwitchedBack (mutualReport.text .terminal true).toList ∧
      ∀ format, format ≠ .terminal →
        mutualReport.text format true = mutualReport.text format false := by
  have free : ∀ name ∈ mutualReport.classNames, '\x1b' ∉ name.toList := by decide +kernel
  exact ⟨free, colour_is_only_added free⟩

end Cohesion
