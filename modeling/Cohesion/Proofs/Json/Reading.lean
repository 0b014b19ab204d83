import Cohesion.Proofs.Json.Tokens

/-!
# Readers follow the tokens of a value

A reader that is given the tokens of a value ends with that value on the last of them. The readers
of arrays and objects pass the tokens of each part on to the reader of that part, so they follow
the tokens of the whole when their parts are followed.
-/

namespace Cohesion.Json.Reader

/-- From what a step has led to, these tokens complete the value, the last of them just then. -/
inductive Completes {Value : Type} (reader : Reader Value) :
    Except Defect (reader.State ⊕ Value) → List Token → Value → Prop
  | done (value : Value) : Completes reader (.ok (.inr value)) [] value
  | next {state : reader.State} {token : Token} {rest : List Token} {value : Value} :
      Completes reader (reader.step state token) rest value →
        Completes reader (.ok (.inl state)) (token :: rest) value

inductive Reads {Value : Type} (reader : Reader Value) : List Token → Value → Prop
  | start {token : Token} {rest : List Token} {value : Value} :
      reader.Completes (reader.start token) rest value → Reads reader (token :: rest) value

section Whole

variable {Value : Type} {reader : Reader Value} {row : List Token} {value : Value}

theorem Completes.resume {outcome : Except Defect (reader.State ⊕ Value)}
    (completes : reader.Completes outcome row value) : reader.resume outcome row = .ok value := by
  induction completes with
  | done value => rfl
  | next _ induction => exact induction

theorem Reads.read {text : String} (reads : reader.Reads row value) (spelled : Spells text row) :
    reader.read (bytesOf text) = .ok value := by
  have alone : tokens (bytesOf text) = row := by
    simpa using spelled [] (by simp [AtMark])
  cases reads with
  | start completes =>
      rw [Reader.read, alone]
      exact completes.resume

end Whole

theorem text_reads (value : String) : text.Reads [.text (.ok value)] value := .start (.done value)

section Items

variable {Found : Type} {reader : Reader Found} {found : Found} {row rest : List Token}
  {before listed : List Found}

theorem list_within_item {outcome : Except Defect (reader.State ⊕ Found)}
    (completes : reader.Completes outcome row found)
    (later : (listOf reader).Completes (.ok (.inl (.after (found :: before)))) rest listed) :
    (listOf reader).Completes (outcome.map (placeItem before)) (row ++ rest) listed := by
  induction completes with
  | done found => exact later
  | next _ induction => exact .next (induction later)

theorem list_at_item (reads : reader.Reads row found)
    (later : (listOf reader).Completes (.ok (.inl (.after (found :: before)))) rest listed) :
    (listOf reader).Completes (.ok (.inl (.due before))) (row ++ rest) listed := by
  cases reads with
  | start completes => exact .next (list_within_item completes later)

/-- The first item cannot be taken for the end, since no value starts like that. -/
theorem list_at_first (reads : reader.Reads row found)
    (noValue : reader.start .closeArray = .error .malformed)
    (later : (listOf reader).Completes (.ok (.inl (.after [found]))) rest listed) :
    (listOf reader).Completes (.ok (.inl .opened)) (row ++ rest) listed := by
  cases reads with
  | @start token _ _ completes =>
      have notClosed : token ≠ .closeArray := by
        intro same
        rw [same, noValue] at completes
        cases completes
      have opened : (listOf reader).step .opened token =
          (reader.start token).map (placeItem []) := by
        cases token
        case closeArray => exact absurd rfl notClosed
        all_goals rfl
      apply Completes.next
      rw [opened]
      exact list_within_item completes later

variable {Item : Type} {items : List Item} {row : Item → List Token} {taken : Item → Found}

theorem list_after_items (reads : ∀ item ∈ items, reader.Reads (row item) (taken item)) :
    (listOf reader).Completes (.ok (.inl (.after before)))
      (partedRows false (items.map row) ++ [.closeArray]) (before.reverse ++ items.map taken) := by
  induction items generalizing before with
  | nil => simpa [partedRows] using Completes.next (.done _)
  | cons item others induction =>
      rw [List.forall_mem_cons] at reads
      have listed : before.reverse ++ (item :: others).map taken =
          (taken item :: before).reverse ++ others.map taken := by simp
      rw [listed, List.map_cons, parted_rows_later]
      exact .next (list_at_item reads.1 (induction reads.2))

theorem list_reads (reads : ∀ item ∈ items, reader.Reads (row item) (taken item))
    (noValue : reader.start .closeArray = .error .malformed) :
    (listOf reader).Reads (.openArray :: (partedRows true (items.map row) ++ [.closeArray]))
      (items.map taken) := by
  cases items with
  | nil => exact .start (.next (.done []))
  | cons item others =>
      rw [List.forall_mem_cons] at reads
      rw [List.map_cons, parted_rows_first]
      exact .start (list_at_first reads.1 noValue (list_after_items reads.2))

end Items

section Members

variable {Found : Type} {reader : Reader Found} {found : Found} {name : String}
  {row rest : List Token} {before listed : List (String × Found)}

theorem table_within_value {outcome : Except Defect (reader.State ⊕ Found)}
    (completes : reader.Completes outcome row found)
    (later : (tableOf reader).Completes (.ok (.inl (.after ((name, found) :: before)))) rest
      listed) :
    (tableOf reader).Completes (outcome.map (placeMember before name)) (row ++ rest) listed := by
  induction completes with
  | done found => exact later
  | next _ induction => exact .next (induction later)

theorem table_at_colon (reads : reader.Reads row found)
    (later : (tableOf reader).Completes (.ok (.inl (.after ((name, found) :: before)))) rest
      listed) :
    (tableOf reader).Completes (.ok (.inl (.colonDue before name))) (.colon :: (row ++ rest))
      listed := by
  cases reads with
  | start completes => exact .next (.next (table_within_value completes later))

variable {Item : Type} {items : List Item} {row : Item → List Token} {taken : Item → Found}

theorem table_after_members (reads : ∀ item ∈ items, reader.Reads (row item) (taken item))
    (name : Item → String) :
    (tableOf reader).Completes (.ok (.inl (.after before)))
      (partedRows false (items.map fun item => memberRow (name item) (row item)) ++
        [.closeObject])
      (before.reverse ++ items.map fun item => (name item, taken item)) := by
  induction items generalizing before with
  | nil => simpa [partedRows] using Completes.next (.done _)
  | cons item others induction =>
      rw [List.forall_mem_cons] at reads
      have listed : before.reverse ++ (item :: others).map (fun item => (name item, taken item)) =
          ((name item, taken item) :: before).reverse ++
            others.map fun item => (name item, taken item) := by simp
      rw [listed, List.map_cons, parted_rows_later]
      exact .next (.next (table_at_colon reads.1 (induction reads.2)))

theorem table_reads (reads : ∀ item ∈ items, reader.Reads (row item) (taken item))
    (name : Item → String) :
    (tableOf reader).Reads
      (.openObject ::
        (partedRows true (items.map fun item => memberRow (name item) (row item)) ++
          [.closeObject]))
      (items.map fun item => (name item, taken item)) := by
  cases items with
  | nil => exact .start (.next (.done []))
  | cons item others =>
      rw [List.forall_mem_cons] at reads
      rw [List.map_cons, parted_rows_first]
      exact .start (.next (table_at_colon reads.1 (table_after_members reads.2 name)))

end Members

end Cohesion.Json.Reader
