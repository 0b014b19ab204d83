import Cohesion.Proofs.Analysis.Stages
import Cohesion.Settings.Document
import Cohesion.Settings.Options

/-!
# Accepted settings are usable

Three parts of the program use the settings, and each has its own test for a value and its own
default for an absent one: the separator is needed to find classes, the thresholds to cut the
dendrogram, and the format to write the report. The check of the settings accepts exactly those
that pass all three tests, and it names the fields that do not.
-/

namespace Cohesion

/-- What the check of one field finds: an error if a value is given and refused. -/
def refusal {Value : Type} (given : Option Value) (refused : Value → Bool)
    (error : Value → FieldError) : List FieldError :=
  match given with
  | some value => if refused value then [error value] else []
  | none => []

section Refusal

variable {Value : Type} {given : Option Value} {refused : Value → Bool}
  {error : Value → FieldError}

theorem mem_refusal_iff {found : FieldError} : found ∈ refusal given refused error ↔
    ∃ value, given = some value ∧ refused value = true ∧ error value = found := by
  cases given with
  | none => simp [refusal]
  | some value => cases test : refused value <;> simp [refusal, test, eq_comm (a := found)]

theorem refusal_fields {name : String} (named : ∀ value, (error value).field = name) :
    ((refusal given refused error).map FieldError.field).Sublist [name] := by
  cases given with
  | none => exact List.nil_sublist _
  | some value => cases test : refused value <;> simp [refusal, test, named]

end Refusal

namespace Settings

def checkedFields : List String :=
  ["call_graph.separator", "clustering.threshold", "output.default_format"]

def Refuses (settings : Settings) : FieldError → Prop
  | .emptySeparator => settings.separatorGiven = some ""
  | .thresholdNotFinite value => settings.thresholdGiven = some value ∧ value.isFinite = false
  | .unknownFormat name => settings.defaultFormat = some name ∧ OutputFormat.parse? name = none

/-- A format that the settings give is the format of a report for which no flag asks another. -/
def KeepsFormat (settings : Settings) : Prop :=
  ∀ name, settings.defaultFormat = some name →
    OutputFormat.parse? name = some (settings.format none)

section Fields

variable (settings : Settings)

theorem field_errors_eq : settings.fieldErrors =
    refusal settings.separatorGiven String.isEmpty (fun _ => .emptySeparator) ++
    refusal settings.thresholdGiven (fun value => !value.isFinite) .thresholdNotFinite ++
    refusal settings.defaultFormat (fun name => (OutputFormat.parse? name).isNone)
      .unknownFormat := by
  refine congrArg₂ (· ++ ·) (congrArg₂ (· ++ ·) ?_ ?_) ?_
  · cases settings.separatorGiven <;> rfl
  · cases settings.thresholdGiven with
    | none => rfl
    | some value => cases finite : value.isFinite <;> simp [refusal, finite]
  · cases settings.defaultFormat <;> rfl

theorem mem_field_errors_iff (error : FieldError) :
    error ∈ settings.fieldErrors ↔ settings.Refuses error := by
  simp only [field_errors_eq, List.mem_append, mem_refusal_iff]
  cases error with
  | emptySeparator => simp [Refuses]
  | thresholdNotFinite value => simp [Refuses]
  | unknownFormat name => simp [Refuses]

theorem field_errors_in_order :
    (settings.fieldErrors.map FieldError.field).Sublist checkedFields := by
  rw [field_errors_eq, List.map_append, List.map_append]
  change List.Sublist _
    (["call_graph.separator"] ++ ["clustering.threshold"] ++ ["output.default_format"])
  refine List.Sublist.append (List.Sublist.append ?_ ?_) ?_
  · exact refusal_fields fun _ => rfl
  · exact refusal_fields fun _ => rfl
  · exact refusal_fields fun _ => rfl

theorem refuses_nothing_iff : (∀ error, ¬settings.Refuses error) ↔
    settings.separatorGiven ≠ some "" ∧
    (∀ value, settings.thresholdGiven = some value → value.isFinite = true) ∧
    ∀ name, settings.defaultFormat = some name → OutputFormat.parse? name ≠ none := by
  constructor
  · intro nothing
    refine ⟨nothing .emptySeparator, fun value given => ?_, fun name given unknown => ?_⟩
    · by_contra notFinite
      exact nothing (.thresholdNotFinite value) ⟨given, eq_false_of_ne_true notFinite⟩
    · exact nothing (.unknownFormat name) ⟨given, unknown⟩
  · rintro ⟨separator, threshold, format⟩ error refuses
    cases error with
    | emptySeparator => exact separator refuses
    | thresholdNotFinite value => exact Bool.false_ne_true (refuses.2 ▸ threshold value refuses.1)
    | unknownFormat name => exact format name refuses.1 refuses.2

theorem validate_eq_ok_iff : settings.validate = .ok () ↔ ∀ error, ¬settings.Refuses error := by
  simp only [← mem_field_errors_iff, ← List.eq_nil_iff_forall_not_mem, validate]
  cases settings.fieldErrors with
  | nil => simp
  | cons error rest => simp

theorem validate_eq_error (refused : settings.validate ≠ .ok ()) :
    settings.validate = .error (.invalidFields settings.fieldErrors) := by
  rw [validate] at refused ⊢
  cases none_found : settings.fieldErrors.isEmpty with
  | false => rfl
  | true => simp [none_found] at refused

end Fields

section Use

variable (settings : Settings)

/-- The thresholds to cut at: those of the flags if there are any, else the one of the settings. -/
def thresholdsInUse (thresholdFlags : Option (List Float)) : List Float :=
  match thresholdFlags with
  | some (first :: rest) => first :: rest
  | _ => [settings.threshold]

theorem options_of_separator (separatorFlag : Option String)
    (some_text : separatorFlag.getD settings.separator ≠ "") (thresholdFlags : Option (List Float))
    (stage : Stage) : settings.options separatorFlag thresholdFlags stage =
      .ok ⟨⟨_, some_text⟩, stage, settings.thresholdsInUse thresholdFlags⟩ := by
  have separator : Separator.ofString? (separatorFlag.getD settings.separator) =
      some ⟨_, some_text⟩ := dif_pos some_text
  unfold options
  rw [separator]
  rfl

theorem options_succeed_iff (separatorFlag : Option String) (thresholdFlags : Option (List Float))
    (stage : Stage) :
    (∃ options, settings.options separatorFlag thresholdFlags stage = .ok options) ↔
      separatorFlag.getD settings.separator ≠ "" := by
  constructor
  · rintro ⟨found, succeeds⟩ no_text
    unfold options at succeeds
    rw [Separator.of_string_eq_none_iff.mpr no_text] at succeeds
    cases succeeds
  · intro some_text
    exact ⟨_, settings.options_of_separator separatorFlag some_text thresholdFlags stage⟩

theorem thresholds_in_use_ne_nil (thresholdFlags : Option (List Float)) :
    settings.thresholdsInUse thresholdFlags ≠ [] := by
  unfold thresholdsInUse
  split
  · exact List.cons_ne_nil _ _
  · exact List.cons_ne_nil _ _

theorem thresholds_in_use_finite {thresholdFlags : Option (List Float)}
    (finite : settings.threshold.isFinite = true)
    (finiteFlags : ∀ flags, thresholdFlags = some flags → ∀ value ∈ flags, value.isFinite = true) :
    ∀ value ∈ settings.thresholdsInUse thresholdFlags, value.isFinite = true := by
  unfold thresholdsInUse
  split
  · exact finiteFlags _ rfl
  · simpa using finite

/-- The default separator is accepted too, so only a given one can be without text. -/
theorem separator_ne_empty_iff : settings.separator ≠ "" ↔ settings.separatorGiven ≠ some "" := by
  rw [separator]
  cases settings.separatorGiven with
  | none => simp [standardSeparator]
  | some text => simp

/-- The default threshold is finite, so only a given one can fail to be. -/
theorem threshold_finite_iff : settings.threshold.isFinite = true ↔
    ∀ value, settings.thresholdGiven = some value → value.isFinite = true := by
  have standard : standardThreshold.isFinite = true := by decide +kernel
  rw [threshold]
  cases settings.thresholdGiven with
  | none => simp [standard]
  | some value => simp

theorem keeps_format_iff : settings.KeepsFormat ↔
    ∀ name, settings.defaultFormat = some name → OutputFormat.parse? name ≠ none := by
  rw [KeepsFormat]
  refine forall_congr' fun name => forall_congr' fun given => ?_
  rw [format, given]
  cases parsed : OutputFormat.parse? name with
  | none => simp
  | some found => simp [parsed]

end Use

end Settings

theorem check_thresholds_eq_ok_iff {W : Type} [Weight W] (thresholds : List W) :
    checkThresholds thresholds = .ok () ↔
      ∀ threshold ∈ thresholds, Weight.isFinite threshold = true := by
  constructor
  · intro accepted
    apply (all_finite_or_refused thresholds).resolve_right
    rintro ⟨value, refused⟩
    rw [refused] at accepted
    cases accepted
  · exact check_thresholds_finite

/-- With finite thresholds there is one way for an analysis to fail. -/
theorem empty_graph_of_error {W : Type} [Weight W] {calls : CallGraph} {options : AnalysisOptions W}
    (finite : ∀ threshold ∈ options.thresholds, Weight.isFinite threshold = true)
    {error : AnalysisError W} (failed : (analyse calls options).2 = .error error) :
    error = .emptyGraph := by
  obtain ⟨separator, stage, thresholds⟩ := options
  cases stage with
  | coupling =>
      rw [coupling_result] at failed
      cases failed
  | dendrogram => exact ((dendrogram_error_iff separator calls thresholds error).mp failed).1
  | modules =>
      rw [modules_error_iff separator calls finite] at failed
      exact ((dendrogram_error_iff separator calls thresholds error).mp failed).1

structure ValidationFits (settings : Settings) : Prop where
  accepted_iff : ∀ stage, settings.validate = .ok () ↔
    (∃ options, settings.options none none stage = .ok options ∧
      checkThresholds options.thresholds = .ok ()) ∧ settings.KeepsFormat
  refused : settings.validate ≠ .ok () → ∃ errors,
    settings.validate = .error (.invalidFields errors) ∧
    (∀ error, error ∈ errors ↔ settings.Refuses error) ∧
    (errors.map FieldError.field).Sublist Settings.checkedFields ∧
    (ConfigurationError.invalidFields errors).message = "Configuration error: " ++
      String.intercalate "; " (errors.map fun error => error.field ++ ": " ++ error.message)
  used : ∀ document separatorFlag thresholdFlags stage, Settings.parse document = .ok settings →
    separatorFlag ≠ some "" →
    (∀ flags, thresholdFlags = some flags → ∀ value ∈ flags, value.isFinite = true) →
    ∃ options, settings.options separatorFlag thresholdFlags stage = .ok options ∧
      options.thresholds ≠ [] ∧ ∀ calls error,
        (analyse calls options).2 = .error error → error = .emptyGraph

theorem Settings.validate_of_parse {settings : Settings} {document : String}
    (parsed : Settings.parse document = .ok settings) : settings.validate = .ok () := by
  unfold Settings.parse at parsed
  split at parsed
  · cases parsed
  · next found _ =>
      cases checked : found.validate with
      | error error =>
          rw [checked] at parsed
          cases parsed
      | ok _ =>
          rw [checked] at parsed
          cases parsed
          exact checked

/-- Settings are accepted exactly if all parts of the program can use them, and an error names the
fields that they cannot use. -/
theorem accepted_settings_are_usable (settings : Settings) : ValidationFits settings := by
  have accepted : settings.validate = .ok () ↔ settings.separator ≠ "" ∧
      settings.threshold.isFinite = true ∧ settings.KeepsFormat := by
    rw [settings.validate_eq_ok_iff, settings.refuses_nothing_iff, settings.separator_ne_empty_iff,
      settings.threshold_finite_iff, settings.keeps_format_iff]
  constructor
  case accepted_iff =>
    intro stage
    rw [accepted]
    constructor
    · rintro ⟨separator, threshold, format⟩
      have merged := settings.options_of_separator none separator none stage
      refine ⟨⟨_, merged, ?_⟩, format⟩
      rw [check_thresholds_eq_ok_iff]
      have noFlags : ∀ flags : List Float, none = some flags →
          ∀ value ∈ flags, value.isFinite = true := by
        intro flags given
        cases given
      exact settings.thresholds_in_use_finite threshold noFlags
    · rintro ⟨⟨options, merged, checked⟩, format⟩
      have separator := (settings.options_succeed_iff none none stage).mp ⟨options, merged⟩
      rw [settings.options_of_separator none separator, Except.ok.injEq] at merged
      rw [check_thresholds_eq_ok_iff, ← merged] at checked
      exact ⟨separator, checked _ (List.mem_singleton.mpr rfl), format⟩
  case refused =>
    intro refused
    exact ⟨_, settings.validate_eq_error refused, settings.mem_field_errors_iff,
      settings.field_errors_in_order, rfl⟩
  case used =>
    intro document separatorFlag thresholdFlags stage parsed some_text finiteFlags
    obtain ⟨separator, threshold, _⟩ := accepted.mp (Settings.validate_of_parse parsed)
    have text : separatorFlag.getD settings.separator ≠ "" := by
      cases separatorFlag with
      | none => exact separator
      | some flag => exact fun none => some_text (congrArg some none)
    refine ⟨_, settings.options_of_separator separatorFlag text thresholdFlags stage,
      settings.thresholds_in_use_ne_nil thresholdFlags, fun calls error failed => ?_⟩
    exact empty_graph_of_error (settings.thresholds_in_use_finite threshold finiteFlags) failed

/-- An absent threshold is not named, and the order is that of the check. -/
example : (match (Settings.mk (some ⟨some ""⟩) (some ⟨none⟩) (some ⟨some "html", none⟩)).validate with
    | .ok () => none
    | .error error => some error.message) =
    some ("Configuration error: call_graph.separator: must not be empty; " ++
      "output.default_format: unknown format 'html' (expected terminal, json or markdown)") := by
  decide +kernel

end Cohesion
