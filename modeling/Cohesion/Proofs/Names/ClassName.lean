import Cohesion.ClassName
import Cohesion.Proofs.Settings.Validation

/-!
# Classes end at the first separator

A separator can start anywhere in an identifier, also inside another occurrence of itself. The class
is what stands before the first of these places, so it holds no separator, and nothing behind the
first occurrence has any effect.
-/

namespace Cohesion

section Patterns

variable {pattern text front : List Char}

/-- What is found stands in front of the pattern, and the pattern starts nowhere before its end. -/
theorem first_of_before (found : before? pattern text = some front) :
    front <+: text ∧ pattern <+: text.drop front.length ∧
      ∀ place < front.length, ¬pattern <+: text.drop place := by
  induction text generalizing front with
  | nil =>
      rw [before?] at found
      split at found
      · next isEmpty =>
          cases found
          simp [List.isEmpty_iff.mp isEmpty]
      · cases found
  | cons head rest induction =>
      rw [before?] at found
      split at found
      · next starts =>
          cases found
          simpa using List.isPrefixOf_iff_prefix.mp starts
      · next startsNot =>
          rcases Option.map_eq_some_iff.mp found with ⟨later, inRest, rfl⟩
          rcases induction inRest with ⟨isFront, starts, first⟩
          refine ⟨List.prefix_cons_inj head |>.mpr isFront, starts, ?_⟩
          intro place before
          cases place with
          | zero => simpa [List.isPrefixOf_iff_prefix] using startsNot
          | succ place => exact first place (Nat.lt_of_succ_lt_succ before)

theorem nowhere_of_before (absent : before? pattern text = none) (place : Nat) :
    ¬pattern <+: text.drop place := by
  induction text generalizing place with
  | nil =>
      rw [before?] at absent
      split at absent
      · cases absent
      · next notEmpty => simpa [List.isEmpty_iff] using notEmpty
  | cons head rest induction =>
      rw [before?] at absent
      split at absent
      · cases absent
      · next startsNot =>
          cases place with
          | zero => simpa [List.isPrefixOf_iff_prefix] using startsNot
          | succ place => exact induction (Option.map_eq_none_iff.mp absent) place

end Patterns

namespace Separator

def StartsAt (separator : Separator) (text : String) (place : Nat) : Prop :=
  ∃ front back, text = front ++ separator.text ++ back ∧ front.length = place

/-- A text comes apart into a front, the separator and a rest, and this is the first place where the
separator starts. -/
structure FirstSplit (separator : Separator) (text front rest : String) : Prop where
  joined : text = front ++ separator.text ++ rest
  first : ∀ place < front.length, ¬separator.StartsAt text place

variable {separator : Separator} {text front rest : String} {place : Nat}

theorem length_pos (separator : Separator) : 0 < separator.text.length := by
  rw [Nat.pos_iff_ne_zero]
  intro noLength
  exact separator.nonempty (String.length_eq_zero_iff.mp noLength)

theorem StartsAt.bound (starts : separator.StartsAt text place) :
    place + separator.text.length ≤ text.length := by
  rcases starts with ⟨front, back, rfl, rfl⟩
  simp only [String.length_append]
  omega

theorem starts_at_iff :
    separator.StartsAt text place ↔ separator.text.toList <+: text.toList.drop place := by
  constructor
  · rintro ⟨front, back, rfl, rfl⟩
    simp [← String.length_toList]
  · rintro ⟨back, same⟩
    have long : separator.text.length ≤ text.length - place := by
      have lengths := congrArg List.length same
      simp only [List.length_append, List.length_drop, String.length_toList] at lengths
      omega
    have positive := separator.length_pos
    refine ⟨String.ofList (text.toList.take place), String.ofList back, ?_, ?_⟩
    · apply String.toList_inj.mp
      simp [same]
    · simp only [String.length_ofList, List.length_take, String.length_toList]
      omega

/-- What stands behind an occurrence does not bear on it. -/
theorem starts_at_append (inside : place + separator.text.length ≤ text.length) :
    separator.StartsAt (text ++ rest) place ↔ separator.StartsAt text place := by
  have long : separator.text.toList.length ≤ (text.toList.drop place).length := by
    simp only [List.length_drop, String.length_toList]
    omega
  have within : place ≤ text.toList.length := by
    rw [String.length_toList]
    omega
  rw [starts_at_iff, starts_at_iff, String.toList_append, List.drop_append_of_le_length within]
  constructor
  · intro starts
    exact List.prefix_of_prefix_length_le starts (List.prefix_append _ _) long
  · intro starts
    exact starts.trans (List.prefix_append _ _)

/-- Whether the separator is the first one is settled at its own end. -/
theorem none_before_iff :
    (∀ place < front.length, ¬separator.StartsAt (front ++ separator.text ++ rest) place) ↔
      ∀ place < front.length, ¬separator.StartsAt (front ++ separator.text) place := by
  refine forall_congr' fun place => imp_congr_right fun before => not_congr ?_
  apply starts_at_append
  rw [String.length_append]
  omega

theorem first_split_class (occurs : ∃ place, separator.StartsAt text place) :
    ∃ rest, separator.FirstSplit text (separator.classOf text) rest := by
  rcases occurs with ⟨place, starts⟩
  cases found : before? separator.text.toList text.toList with
  | none => exact absurd (starts_at_iff.mp starts) (nowhere_of_before found place)
  | some front =>
      rcases first_of_before found with ⟨⟨behind, whole⟩, ⟨back, same⟩, first⟩
      have isClass : separator.classOf text = String.ofList front := by
        rw [classOf, found]
      rw [← whole, List.drop_left] at same
      refine ⟨String.ofList back, ?_, ?_⟩
      · apply String.toList_inj.mp
        simp [isClass, ← whole, ← same]
      · intro earlier before
        rw [isClass, String.length_ofList] at before
        rw [starts_at_iff]
        exact first earlier before

theorem class_of_unseparated (absent : ¬∃ place, separator.StartsAt text place) :
    separator.classOf text = text := by
  cases found : before? separator.text.toList text.toList with
  | none => rw [classOf, found]
  | some front => exact absurd ⟨_, starts_at_iff.mpr (first_of_before found).2.1⟩ absent

theorem FirstSplit.class_eq (split : separator.FirstSplit text front rest) :
    separator.classOf text = front := by
  have here : separator.StartsAt text front.length := ⟨front, rest, split.joined, rfl⟩
  rcases first_split_class ⟨_, here⟩ with ⟨other, found⟩
  have there : separator.StartsAt text (separator.classOf text).length :=
    ⟨_, other, found.joined, rfl⟩
  have lengths : (separator.classOf text).length = front.length := by
    apply Nat.le_antisymm
    · exact Nat.le_of_not_lt fun before => found.first _ before here
    · exact Nat.le_of_not_lt fun before => split.first _ before there
  have same := found.joined.symm.trans split.joined
  rw [String.append_assoc, String.append_assoc, ← String.toList_inj, String.toList_append,
    String.toList_append (s := front)] at same
  rw [← String.length_toList, ← String.length_toList] at lengths
  exact String.toList_inj.mp (List.append_inj same lengths).1

theorem class_unseparated (separator : Separator) (text : String) :
    ¬∃ place, separator.StartsAt (separator.classOf text) place := by
  rintro ⟨place, starts⟩
  by_cases occurs : ∃ place, separator.StartsAt text place
  · rcases first_split_class occurs with ⟨rest, split⟩
    have bound := starts.bound
    have positive := separator.length_pos
    apply split.first place (by omega)
    rw [split.joined, String.append_assoc]
    exact (starts_at_append bound).mpr starts
  · rw [class_of_unseparated occurs] at starts
    exact occurs ⟨place, starts⟩

theorem class_of_joined_iff (className member : String) :
    separator.classOf (className ++ separator.text ++ member) = className ↔
      ∀ place < className.length, ¬separator.StartsAt (className ++ separator.text) place := by
  constructor
  · intro isClass
    have occurs : separator.StartsAt (className ++ separator.text ++ member) className.length :=
      ⟨className, member, rfl, rfl⟩
    rcases first_split_class ⟨_, occurs⟩ with ⟨rest, split⟩
    rw [isClass] at split
    exact none_before_iff.mp split.first
  · intro first
    exact FirstSplit.class_eq ⟨rfl, none_before_iff.mpr first⟩

structure DividesAtFirst (separator : Separator) : Prop where
  separated : ∀ identifier, (∃ place, separator.StartsAt identifier place) →
    ∃ rest, separator.FirstSplit identifier (separator.classOf identifier) rest
  unseparated : ∀ identifier, (¬∃ place, separator.StartsAt identifier place) →
    separator.classOf identifier = identifier
  idempotent : ∀ identifier,
    separator.classOf (separator.classOf identifier) = separator.classOf identifier
  none_inside : ∀ identifier, ¬∃ place, separator.StartsAt (separator.classOf identifier) place
  front_decides : ∀ identifier front rest, separator.FirstSplit identifier front rest →
    ∀ other, separator.classOf (front ++ separator.text ++ other) = separator.classOf identifier
  recovered : ∀ className,
    (∀ member, separator.classOf (className ++ separator.text ++ member) = className) ↔
      ∀ place < className.length, ¬separator.StartsAt (className ++ separator.text) place

theorem divides_at_first (separator : Separator) : separator.DividesAtFirst where
  separated _ := first_split_class
  unseparated _ := class_of_unseparated
  idempotent identifier := class_of_unseparated (separator.class_unseparated identifier)
  none_inside := separator.class_unseparated
  front_decides identifier front rest split other := by
    have first := split.first
    rw [split.joined, none_before_iff] at first
    rw [split.class_eq, class_of_joined_iff]
    exact first
  recovered className := by
    simp only [class_of_joined_iff, forall_const]

/-- Two colons, which can start in the colon in front of them. -/
def doubleColon : Separator := ⟨"::", by decide⟩

theorem colon_unseparated : ¬∃ place, doubleColon.StartsAt "a:" place := by
  rintro ⟨place, starts⟩
  have bound : place + 2 ≤ 2 := starts.bound
  obtain rfl : place = 0 := by omega
  exact absurd (starts_at_iff.mp starts) (by decide)

theorem colon_not_recovered (member : String) :
    doubleColon.classOf ("a:" ++ doubleColon.text ++ member) ≠ "a:" := by
  rw [Ne, class_of_joined_iff]
  intro first
  exact first 1 (by decide) ⟨"a", ":", by decide, by decide⟩

end Separator

theorem Settings.options_empty_separator_iff (settings : Settings) (separatorFlag : Option String)
    (thresholdFlags : Option (List Float)) (stage : Stage) :
    settings.options separatorFlag thresholdFlags stage = .error .emptySeparator ↔
      separatorFlag.getD settings.separator = "" := by
  constructor
  · intro refused
    by_contra some_text
    rw [settings.options_of_separator separatorFlag some_text] at refused
    cases refused
  · intro no_text
    unfold options
    rw [Separator.of_string_eq_none_iff.mpr no_text]

/-- The class of an identifier is what stands before the first separator, or all of it when there is
no separator. A class that holds no separator need not be found in front of one, since the first
separator can start inside it. A separator without text is refused with a configuration error. -/
theorem class_ends_at_first_separator :
    (∀ separator : Separator, separator.DividesAtFirst) ∧
    (∃ (separator : Separator) (className : String),
      (¬∃ place, separator.StartsAt className place) ∧
        ∀ member, separator.classOf (className ++ separator.text ++ member) ≠ className) ∧
    (∀ text, Separator.ofString? text = none ↔ text = "") ∧
    (∀ text separator, Separator.ofString? text = some separator → separator.text = text) ∧
    (∀ (settings : Settings) (separatorFlag : Option String)
      (thresholdFlags : Option (List Float)) (stage : Stage),
      settings.options separatorFlag thresholdFlags stage = .error .emptySeparator ↔
        separatorFlag.getD settings.separator = "") ∧
    ConfigurationError.emptySeparator.message =
      "Configuration error: class separator must not be empty" := by
  refine ⟨Separator.divides_at_first, ?_, ?_, ?_, Settings.options_empty_separator_iff, rfl⟩
  · exact ⟨_, "a:", Separator.colon_unseparated, Separator.colon_not_recovered⟩
  · intro text
    exact Separator.of_string_eq_none_iff
  · intro text separator accepted
    unfold Separator.ofString? at accepted
    split at accepted
    · cases accepted
      rfl
    · cases accepted

/-- The first of two overlapping separators ends the class. -/
example : Separator.doubleColon.classOf "é:::b::c" = "é" := by decide

end Cohesion
