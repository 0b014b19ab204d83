import Mathlib.Data.List.DropRight
import Cohesion.Files.Path
import Cohesion.Proofs.Names.ByteOrder

/-!
# Ancestors of a path

A path is a row of components, of which its text may have several spellings. Its parent is the
beginning of its text that has the same components but the last one, so going up from a path ends
after one step for each component that is not the root.
-/

namespace Cohesion.Path

/-- A component of a path: the root, a dot at the very start, the directory above, or a name. -/
inductive Component where
  | root
  | here
  | up
  | entry (name : String)
  deriving DecidableEq

def component? (piece : List Char) : Option Component :=
  if piece = [] ∨ piece = ['.'] then none
  else if piece = ['.', '.'] then some .up
  else some (.entry (String.ofList piece))

/-- The components of a text. Nothing in front of a first slash is the root, and a dot counts as the
first piece only. -/
def componentsOf (text : List Char) : List Component :=
  match text.splitOn '/' with
  | [] :: next :: later => .root :: (next :: later).filterMap component?
  | ['.'] :: later => .here :: later.filterMap component?
  | pieces => pieces.filterMap component?

def components (path : String) : List Component := componentsOf path.toList

def depth (path : String) : Nat := ((components path).filter (· ≠ .root)).length

section Pieces

theorem component_eq_none_iff {piece : List Char} :
    component? piece = none ↔ isVoid piece = true := by
  unfold component? isVoid
  split
  · next none_meant => simpa using none_meant
  · next meant =>
      have some_meant : (if piece = ['.', '.'] then some Component.up
          else some (.entry (String.ofList piece))) ≠ none := by
        split <;> simp
      simpa [some_meant] using meant

theorem component_ne_root (piece : List Char) : component? piece ≠ some .root := by
  unfold component?
  split
  · simp
  · split <;> simp

theorem trim_end_eq (pieces : List (List Char)) : trimEnd pieces = pieces.rdropWhile isVoid := rfl

theorem trim_end_components (pieces : List (List Char)) :
    (trimEnd pieces).filterMap component? = pieces.filterMap component? := by
  rw [trim_end_eq]
  induction pieces using List.reverseRecOn with
  | nil => rfl
  | append_singleton before last induction =>
      rw [List.rdropWhile_concat]
      split
      · next void =>
          rw [induction, List.filterMap_append]
          simp [component_eq_none_iff.mpr void]
      · rfl

theorem trim_end_eq_nil {pieces : List (List Char)} (none_meant : pieces.filterMap component? = []) :
    trimEnd pieces = [] := by
  rw [trim_end_eq, List.rdropWhile_eq_nil_iff]
  intro piece member
  rw [← component_eq_none_iff]
  exact List.filterMap_eq_nil_iff.mp none_meant piece member

theorem last_of_trim_end {pieces before : List (List Char)} {last : List Char}
    (trimmed : trimEnd pieces = before ++ [last]) :
    ∃ component, component? last = some component := by
  rw [trim_end_eq] at trimmed
  have kept : pieces.rdropWhile isVoid ≠ [] := by simp [trimmed]
  have meant := List.rdropWhile_last_not isVoid pieces kept
  simp only [trimmed, List.getLast_append_singleton] at meant
  rw [← component_eq_none_iff] at meant
  exact Option.ne_none_iff_exists'.mp meant

theorem mark_not_mem_split {mark : Char} {text piece : List Char}
    (member : piece ∈ text.splitOn mark) : mark ∉ piece := by
  induction text generalizing piece with
  | nil =>
      rw [List.mem_singleton.mp member]
      exact List.not_mem_nil
  | cons character rest induction =>
      rw [List.splitOn_cons_eq_if_modifyHead] at member
      split at member
      · rcases List.mem_cons.mp member with rfl | later
        · exact List.not_mem_nil
        · exact induction later
      · next differs =>
          obtain ⟨first, others, listed⟩ :=
            List.exists_cons_of_ne_nil (List.splitOn_ne_nil mark rest)
          rw [listed, List.modifyHead_cons] at member
          rw [listed] at induction
          rcases List.mem_cons.mp member with rfl | later
          · have apart := induction List.mem_cons_self
            rw [List.mem_cons, not_or]
            exact ⟨fun same => differs (beq_iff_eq.mpr same.symm), apart⟩
          · exact induction (List.mem_cons_of_mem _ later)

/-- Pieces from the start of a text, put together again, are split into the same pieces. -/
theorem split_kept {mark : Char} {text : List Char} {kept : List (List Char)}
    (front : kept <+: text.splitOn mark) (some_kept : kept ≠ []) :
    (List.intercalate [mark] kept).splitOn mark = kept := by
  apply List.splitOn_intercalate mark _ some_kept
  exact fun piece member => mark_not_mem_split (front.subset member)

theorem kept_components {mark : Char} {text : List Char} {kept : List (List Char)}
    (front : kept <+: text.splitOn mark) :
    ((List.intercalate [mark] kept).splitOn mark).filterMap component? =
      kept.filterMap component? := by
  cases kept with
  | nil => rfl
  | cons first later => rw [split_kept front (List.cons_ne_nil _ _)]

theorem intercalate_append {mark : Char} {front back : List (List Char)} (some_front : front ≠ [])
    (some_back : back ≠ []) : List.intercalate [mark] (front ++ back) =
      List.intercalate [mark] front ++ mark :: List.intercalate [mark] back := by
  obtain ⟨next, later, rfl⟩ := List.exists_cons_of_ne_nil some_back
  induction front with
  | nil => exact absurd rfl some_front
  | cons first others induction =>
      cases others with
      | nil => simp [List.intercalate_cons_cons]
      | cons second more =>
          have joined := induction (List.cons_ne_nil _ _)
          simp only [List.cons_append, List.intercalate_cons_cons, List.append_assoc] at joined ⊢
          rw [joined]

theorem cut_of_kept {mark : Char} {text : List Char} {kept : List (List Char)}
    (front : kept <+: text.splitOn mark) : ∃ rest, List.intercalate [mark] kept ++ rest = text ∧
      (List.intercalate [mark] kept = [] ∨ rest = [] ∨ ∃ more, rest = mark :: more) := by
  obtain ⟨dropped, pieces⟩ := front
  have joined : List.intercalate [mark] (text.splitOn mark) = text := List.intercalate_splitOn mark
  rw [← pieces] at joined
  by_cases none_kept : kept = []
  · exact ⟨text, by simp [none_kept], .inl (by simp [none_kept])⟩
  · by_cases none_dropped : dropped = []
    · rw [none_dropped, List.append_nil] at joined
      exact ⟨[], by simp [joined], .inr (.inl rfl)⟩
    · rw [intercalate_append none_kept none_dropped] at joined
      exact ⟨_, joined, .inr (.inr ⟨_, rfl⟩)⟩

end Pieces

section Head

def leading (head : List Char) : List Component :=
  if head = ['/'] then [.root] else if head = ['.'] then [.here] else []

theorem head_append_body {text head body : List Char} (split : splitHead text = (head, body)) :
    text = head ++ body := by
  revert split
  fun_cases splitHead text <;> rintro ⟨⟩ <;> rfl

theorem split_head_self {text : List Char} (notRoot : ∀ rest, text ≠ '/' :: rest)
    (notDot : text ≠ ['.']) (notHere : ∀ rest, text ≠ '.' :: '/' :: rest) :
    splitHead text = ([], text) := by
  fun_cases splitHead text with
  | case1 rest => exact absurd rfl (notRoot rest)
  | case2 => exact absurd rfl notDot
  | case3 rest => exact absurd rfl (notHere rest)
  | case4 => rfl

theorem split_head_cut {text head cut rest : List Char} (split : splitHead text = (head, cut ++ rest))
    (stops : cut = [] ∨ rest = [] ∨ ∃ more, rest = '/' :: more) :
    splitHead (head ++ cut) = (head, cut) := by
  revert split
  fun_cases splitHead text with
  | case1 =>
      rintro ⟨⟩
      rfl
  | case2 =>
      rw [Prod.mk.injEq]
      rintro ⟨rfl, empty⟩
      rw [(List.append_eq_nil_iff.mp empty.symm).1]
      rfl
  | case3 =>
      rw [Prod.mk.injEq]
      rintro ⟨rfl, same⟩
      cases cut with
      | nil => rfl
      | cons slash others =>
          rw [List.cons_append, List.cons.injEq] at same
          rw [← same.1]
          rfl
  | case4 _ notRoot notDot notHere =>
      rw [Prod.mk.injEq]
      rintro ⟨rfl, rfl⟩
      apply split_head_self
      · rintro others rfl
        exact notRoot _ rfl
      · rintro rfl
        rcases stops with none_left | rfl | ⟨more, rfl⟩
        · cases none_left
        · exact notDot rfl
        · exact notHere more rfl
      · rintro others rfl
        exact notHere _ rfl

theorem components_of_head {text head body : List Char} (split : splitHead text = (head, body)) :
    componentsOf text = leading head ++ (body.splitOn '/').filterMap component? := by
  revert split
  fun_cases splitHead text with
  | case1 =>
      rintro ⟨⟩
      obtain ⟨next, later, listed⟩ := List.exists_cons_of_ne_nil (List.splitOn_ne_nil '/' body)
      have pieces : ('/' :: body).splitOn '/' = [] :: next :: later := by
        rw [List.splitOn_cons_eq_if_modifyHead, if_pos (beq_self_eq_true _), listed]
      rw [componentsOf, pieces, listed]
      rfl
  | case2 =>
      rintro ⟨⟩
      rfl
  | case3 rest =>
      rintro ⟨⟩
      have body : ('/' :: rest).splitOn '/' = [] :: rest.splitOn '/' := by
        rw [List.splitOn_cons_eq_if_modifyHead, if_pos (beq_self_eq_true _)]
      have pieces : ('.' :: '/' :: rest).splitOn '/' = ['.'] :: rest.splitOn '/' := by
        rw [List.splitOn_cons_eq_if_modifyHead, if_neg (by decide), body]
        rfl
      rw [componentsOf, pieces, body]
      rfl
  | case4 _ notRoot notDot notHere =>
      rintro ⟨⟩
      have joined : List.intercalate ['/'] (text.splitOn '/') = text := List.intercalate_splitOn '/'
      unfold componentsOf
      split
      · next next later pieces =>
          rw [pieces, List.intercalate_cons_cons] at joined
          exact absurd joined.symm (notRoot _)
      · next later pieces =>
          rw [pieces] at joined
          cases later with
          | nil => exact absurd joined.symm notDot
          | cons next others =>
              rw [List.intercalate_cons_cons] at joined
              exact absurd joined.symm (notHere _)
      · rfl

/-- Pieces from the start of a body, put together behind its head, have the components of both. -/
theorem components_of_kept {text head body : List Char} (split : splitHead text = (head, body))
    {kept : List (List Char)} (front : kept <+: body.splitOn '/') :
    componentsOf (head ++ List.intercalate ['/'] kept) =
      leading head ++ kept.filterMap component? := by
  obtain ⟨rest, rfl, stops⟩ := cut_of_kept front
  rw [components_of_head (split_head_cut split stops), kept_components front]

theorem text_of_no_components {text : List Char} (none_there : componentsOf text = []) :
    text = [] := by
  have joined : List.intercalate ['/'] (text.splitOn '/') = text := List.intercalate_splitOn '/'
  unfold componentsOf at none_there
  split at none_there
  · cases none_there
  · cases none_there
  · next notRoot notHere =>
      obtain ⟨first, later, pieces⟩ := List.exists_cons_of_ne_nil (List.splitOn_ne_nil '/' text)
      have void : isVoid first = true := by
        rw [← component_eq_none_iff]
        apply List.filterMap_eq_nil_iff.mp none_there
        rw [pieces]
        exact List.mem_cons_self
      rw [isVoid, Bool.or_eq_true, decide_eq_true_iff, decide_eq_true_iff] at void
      rcases void with rfl | rfl
      · cases later with
        | nil => rw [← joined, pieces, List.intercalate_singleton]
        | cons next others => exact absurd pieces (notRoot _ _)
      · exact absurd pieces (notHere _)

end Head

section Parent

variable {path parent : String}

theorem parent_of_trimmed {head body : List Char} (split : splitHead path.toList = (head, body)) :
    (trimEnd (body.splitOn '/') = [] ∧ parent? path = if head = ['.'] then some "" else none) ∨
      ∃ before last, trimEnd (body.splitOn '/') = before ++ [last] ∧
        parent? path = some (String.ofList (head ++ List.intercalate ['/'] (trimEnd before))) := by
  unfold parent?
  rw [split]
  dsimp only
  cases trimmed : trimEnd (body.splitOn '/') using List.reverseRecOn with
  | nil => exact .inl ⟨rfl, rfl⟩
  | append_singleton before last =>
      refine .inr ⟨before, last, rfl, ?_⟩
      rw [List.reverse_append, List.reverse_singleton, List.singleton_append]
      simp only [List.reverse_reverse]

theorem kept_of_trimmed {head body : List Char} {before : List (List Char)} {last : List Char}
    (split : splitHead path.toList = (head, body))
    (trimmed : trimEnd (body.splitOn '/') = before ++ [last]) :
    head ++ List.intercalate ['/'] (trimEnd before) <+: path.toList ∧
      componentsOf (head ++ List.intercalate ['/'] (trimEnd before)) =
        leading head ++ before.filterMap component? := by
  have inPieces : before ++ [last] <+: body.splitOn '/' :=
    trimmed ▸ List.rdropWhile_prefix isVoid _
  have front : trimEnd before <+: body.splitOn '/' :=
    (List.rdropWhile_prefix isVoid before).trans ((List.prefix_append before [last]).trans inPieces)
  refine ⟨?_, by rw [components_of_kept split front, trim_end_components]⟩
  obtain ⟨rest, joined, _⟩ := cut_of_kept front
  rw [head_append_body split, ← joined, ← List.append_assoc]
  exact List.prefix_append _ rest

/-- One path has the components of another without the last one, and its text is a shorter beginning
of the other text. -/
structure IsParent (parent path : String) : Prop where
  beginning : nameBytes parent <+: nameBytes path
  shorter : (nameBytes parent).length < (nameBytes path).length
  components : ∃ last, last ≠ .root ∧ Path.components path = Path.components parent ++ [last]

theorem is_parent_of_text (front : parent.toList <+: path.toList) {last : Component}
    (notRoot : last ≠ .root) (split : components path = components parent ++ [last]) :
    IsParent parent path := by
  have differs : parent ≠ path := by
    rintro rfl
    have lengths := congrArg List.length split
    simp at lengths
  obtain ⟨rest, texts⟩ := front
  have bytes : nameBytes parent ++ rest.flatMap String.utf8EncodeChar = nameBytes path := by
    rw [name_bytes_eq, name_bytes_eq, ← texts, List.flatMap_append]
  have front : nameBytes parent <+: nameBytes path := ⟨_, bytes⟩
  refine ⟨front, ?_, last, notRoot, split⟩
  apply Nat.lt_of_le_of_ne front.length_le
  intro sameLength
  exact differs (name_bytes_inj (front.eq_of_length sameLength))

/-- The step up from a path: there is none from a path without components besides the root, and
otherwise it leads to the parent. -/
theorem parent_cases (path : String) :
    (parent? path = none ∧ depth path = 0) ∨
      ∃ parent, parent? path = some parent ∧ IsParent parent path := by
  cases split : splitHead path.toList with
  | mk head body =>
      have own : components path = _ := components_of_head split
      have text := head_append_body split
      rw [← trim_end_components] at own
      rcases parent_of_trimmed split with ⟨trimmed, above⟩ | ⟨before, last, trimmed, above⟩
      · rw [trimmed, List.filterMap_nil, List.append_nil] at own
        by_cases here : head = ['.']
        · refine .inr ⟨"", by rw [above, if_pos here], ?_⟩
          have pieces : components path = components "" ++ [.here] := by
            rw [own, here]
            rfl
          exact is_parent_of_text List.nil_prefix (by decide) pieces
        · refine .inl ⟨by rw [above, if_neg here], ?_⟩
          rw [depth, own, leading, if_neg here]
          split <;> rfl
      · obtain ⟨component, meant⟩ := last_of_trim_end trimmed
        obtain ⟨front, others⟩ := kept_of_trimmed split trimmed
        refine .inr ⟨_, above, ?_⟩
        have notRoot : component ≠ .root := by
          rintro rfl
          exact component_ne_root last meant
        refine is_parent_of_text ?_ notRoot ?_
        · rwa [String.toList_ofList]
        · rw [own, trimmed, components, String.toList_ofList, others, List.filterMap_append,
            List.append_assoc]
          simp [meant]

/-- A parent without components besides the root is written as the root alone. -/
theorem text_of_root_parent (above : parent? path = some parent)
    (onlyRoot : components parent = [.root]) : parent = "/" := by
  cases split : splitHead path.toList with
  | mk head body =>
      rcases parent_of_trimmed split with ⟨_, found⟩ | ⟨before, last, trimmed, found⟩
      · rw [above] at found
        split at found
        · cases found
          cases onlyRoot
        · cases found
      · rw [above, Option.some.injEq] at found
        subst found
        obtain ⟨_, others⟩ := kept_of_trimmed split trimmed
        rw [components, String.toList_ofList, others, leading] at onlyRoot
        split at onlyRoot
        · next isRoot =>
            rw [List.singleton_append, List.cons.injEq] at onlyRoot
            rw [trim_end_eq_nil onlyRoot.2, isRoot]
            rfl
        · split at onlyRoot
          · cases onlyRoot
          · have member : Component.root ∈ before.filterMap component? := by
              rw [List.nil_append] at onlyRoot
              rw [onlyRoot]
              exact List.mem_cons_self
            obtain ⟨piece, _, meant⟩ := List.mem_filterMap.mp member
            exact absurd meant (component_ne_root piece)

end Parent

section Top

variable {path parent : String}

def isAbsolute (path : String) : Bool := path.toList.head? = some '/'

theorem root_of_head {text head body : List Char} (split : splitHead text = (head, body)) :
    (leading head).filter (· = .root) = if text.head? = some '/' then [.root] else [] := by
  revert split
  fun_cases splitHead text with
  | case1 =>
      rintro ⟨⟩
      rfl
  | case2 =>
      rintro ⟨⟩
      rfl
  | case3 =>
      rintro ⟨⟩
      rfl
  | case4 _ notRoot =>
      rintro ⟨⟩
      have relative : text.head? ≠ some '/' := by
        intro slash
        obtain ⟨rest, same⟩ := List.head?_eq_some_iff.mp slash
        exact notRoot rest same
      rw [if_neg relative]
      rfl

theorem root_of_components (path : String) :
    (components path).filter (· = .root) = if isAbsolute path then [.root] else [] := by
  have meant (pieces : List (List Char)) :
      (pieces.filterMap component?).filter (· = .root) = [] := by
    rw [List.filter_eq_nil_iff]
    intro component member
    obtain ⟨piece, _, meant⟩ := List.mem_filterMap.mp member
    rw [decide_eq_true_iff]
    rintro rfl
    exact component_ne_root piece meant
  cases split : splitHead path.toList with
  | mk head body =>
      rw [components, components_of_head split, List.filter_append, meant, List.append_nil,
        root_of_head split, isAbsolute]
      simp only [decide_eq_true_eq]

theorem only_root_of_depth (shallow : depth path = 0) :
    components path = if isAbsolute path then [.root] else [] := by
  rw [← root_of_components, eq_comm, List.filter_eq_self]
  rw [depth, List.length_eq_zero_iff, List.filter_eq_nil_iff] at shallow
  intro component member
  simpa using shallow component member

theorem IsParent.depth_eq (isParent : IsParent parent path) : depth path = depth parent + 1 := by
  obtain ⟨last, notRoot, split⟩ := isParent.components
  rw [depth, depth, split, List.filter_append]
  simp [notRoot]

theorem IsParent.absolute_eq (isParent : IsParent parent path) :
    isAbsolute parent = isAbsolute path := by
  obtain ⟨last, notRoot, split⟩ := isParent.components
  have roots := root_of_components path
  rw [split, List.filter_append, root_of_components parent] at roots
  cases own : isAbsolute parent <;> cases other : isAbsolute path <;> simp_all

def top (path : String) : String :=
  if depth path = 0 then path else if isAbsolute path then "/" else ""

theorem top_components (path : String) :
    components (top path) = if isAbsolute path then [.root] else [] := by
  unfold top
  split
  · next shallow => exact only_root_of_depth shallow
  · split <;> rfl

theorem top_of_parent (above : parent? path = some parent) (isParent : IsParent parent path) :
    top parent = top path := by
  have deeper := isParent.depth_eq
  have absolute := isParent.absolute_eq
  unfold top
  rw [absolute, if_neg (show depth path ≠ 0 by omega)]
  split
  · next shallow =>
      have only := only_root_of_depth shallow
      rw [absolute] at only
      split
      · next isRoot =>
          rw [if_pos isRoot] at only
          exact text_of_root_parent above only
      · next relative =>
          rw [if_neg relative] at only
          exact String.toList_inj.mp (text_of_no_components only)
  · rfl

end Top

section Ancestors

theorem length_ancestors (limit : Nat) (path : String) :
    (ancestors limit path).length = min limit (depth path + 1) := by
  induction limit generalizing path with
  | zero => simp [ancestors]
  | succ limit induction =>
      rw [ancestors, List.length_cons]
      rcases parent_cases path with ⟨above, shallow⟩ | ⟨parent, above, isParent⟩
      · rw [above, shallow, List.length_nil]
        omega
      · have deeper := isParent.depth_eq
        simp only [above, induction parent]
        omega

theorem ancestors_chain (limit : Nat) (path : String) :
    (ancestors limit path).IsChain fun lower upper => IsParent upper lower := by
  induction limit generalizing path with
  | zero => exact .nil
  | succ limit induction =>
      rw [ancestors]
      rcases parent_cases path with ⟨above, _⟩ | ⟨parent, above, isParent⟩
      · rw [above]
        exact .singleton path
      · have later := induction parent
        rw [above]
        dsimp only
        cases limit with
        | zero => exact .singleton path
        | succ limit =>
            rw [ancestors] at later ⊢
            exact List.isChain_cons_cons.mpr ⟨isParent, later⟩

theorem ancestors_grow (limit more : Nat) (path : String) :
    ancestors limit path <+: ancestors (limit + more) path := by
  induction limit generalizing path with
  | zero => exact List.nil_prefix
  | succ limit induction =>
      rw [Nat.succ_add, ancestors, ancestors, List.prefix_cons_inj]
      cases parent? path with
      | none => exact List.nil_prefix
      | some parent => exact induction parent

theorem last_ancestor {limit : Nat} {path : String} (enough : depth path < limit) :
    (ancestors limit path).getLast? = some (top path) := by
  induction limit generalizing path with
  | zero => omega
  | succ limit induction =>
      rw [ancestors]
      rcases parent_cases path with ⟨above, shallow⟩ | ⟨parent, above, isParent⟩
      · rw [above, List.getLast?_singleton, top, if_pos shallow]
      · have deeper := isParent.depth_eq
        have later : (ancestors limit parent).getLast? = some (top parent) := induction (by omega)
        rw [top_of_parent above isParent] at later
        rw [above, List.getLast?_cons, later]
        rfl

/-- The first entries of the way from a path up to its root or to the empty path. -/
structure Ascent (limit : Nat) (path : String) (chain : List String) : Prop where
  count : chain.length = min limit (depth path + 1)
  start : ∀ first ∈ chain.head?, first = path
  steps : chain.IsChain fun lower upper => IsParent upper lower
  absolute_end : depth path < limit → isAbsolute path = true →
    ∃ last, chain.getLast? = some last ∧ components last = [.root] ∧ (0 < depth path → last = "/")
  relative_end : depth path < limit → isAbsolute path = false → chain.getLast? = some ""

end Ancestors

/-- The ancestors of a path lead up from it, parent by parent, as far as the limit lets them, and with
a higher limit the way only goes on. -/
theorem ancestors_ascend (limit : Nat) (path : String) : Ascent limit path (ancestors limit path) ∧
    ∀ more, ancestors limit path <+: ancestors (limit + more) path := by
  refine ⟨?_, fun more => ancestors_grow limit more path⟩
  constructor
  case count => exact length_ancestors limit path
  case start =>
    cases limit with
    | zero => exact fun first none_there => nomatch none_there
    | succ limit =>
        rintro first ⟨⟩
        rfl
  case steps => exact ancestors_chain limit path
  case absolute_end =>
    intro enough absolute
    refine ⟨top path, last_ancestor enough, ?_, fun deep => ?_⟩
    · rw [top_components, if_pos absolute]
    · rw [top, if_neg (Nat.ne_of_gt deep), if_pos absolute]
  case relative_end =>
    intro enough relative
    have none_left : components (top path) = [] := by
      rw [top_components, relative]
      rfl
    have empty : top path = "" := String.toList_inj.mp (text_of_no_components none_left)
    rw [last_ancestor enough, empty]

/-- Blank pieces and dots are passed over, except for the dot at the start. -/
example : ancestors 10 "./a//b/." = ["./a//b/.", "./a", ".", ""] := by decide +kernel

end Cohesion.Path
