import Cohesion.Json.Reader
import Cohesion.Proofs.Files.System
import Cohesion.Settings.Discovery

/-!
# The nearest usable configuration

The search for a configuration goes through at most ten directories. It ends at the first file that
can be read and used, and passes over files that are not there as well as over files that cannot be
used. So the nearest configuration file decides if it can be used, or if nothing above it can.
-/

namespace Cohesion

namespace Settings

/-- The settings that the content of a file gives, if it can be read and used. -/
def usable? (content : Except FileError (List UInt8)) : Option Settings :=
  match content.bind textOf with
  | .error _ => none
  | .ok text => (parse text).toOption

def candidates (start : String) : List String :=
  (Path.ancestors searchLimit start).map fun directory => Path.join directory configurationFile

theorem of_candidate_settings (path : String) (content : Except FileError (List UInt8)) :
    (ofCandidate path content).1 = usable? content := by
  unfold ofCandidate usable?
  cases content.bind textOf with
  | error error => cases error <;> rfl
  | ok text =>
      dsimp only
      cases parse text with
      | error error => rfl
      | ok settings => rfl

theorem length_ancestors_le (limit : Nat) (path : String) :
    (Path.ancestors limit path).length ≤ limit := by
  induction limit generalizing path with
  | zero => exact Nat.le_refl _
  | succ limit induction =>
      rw [Path.ancestors, List.length_cons]
      cases Path.parent? path with
      | none => exact Nat.succ_le_succ (Nat.zero_le _)
      | some parent => exact Nat.succ_le_succ (induction parent)

section Search

variable {State Place : Type} (system : FileSystem State Place) (state : State)

def found (start : String) : Settings := (discover system.access start state).1.1

def usableAt? (path : String) : Option Settings := usable? (system.read state path)

section Step

variable {directory : String} {others : List String} {events : List SearchEvent}

theorem search_of_usable {settings : Settings}
    (candidate : ofCandidate (Path.join directory configurationFile)
      (system.read state (Path.join directory configurationFile)) = (some settings, events)) :
    search system.access (directory :: others) state = ((settings, events), state) := by
  simp only [search, bind, StateT.bind, FileSystem.access, candidate]
  rfl

theorem search_of_unusable
    (candidate : ofCandidate (Path.join directory configurationFile)
      (system.read state (Path.join directory configurationFile)) = (none, events)) :
    search system.access (directory :: others) state =
      (((search system.access others state).1.1, events ++ (search system.access others state).1.2),
        (search system.access others state).2) := by
  simp only [search, bind, StateT.bind, FileSystem.access, candidate]
  rfl

end Step

/-- The first usable file gives the settings, and the search changes nothing. -/
theorem search_eq (directories : List String) :
    (search system.access directories state).2 = state ∧
      (search system.access directories state).1.1 =
        ((directories.map fun directory => Path.join directory configurationFile).findSome?
          (usableAt? system state)).getD standard := by
  induction directories with
  | nil => exact ⟨rfl, rfl⟩
  | cons directory others induction =>
      obtain ⟨unchanged, later⟩ := induction
      rw [List.map_cons, List.findSome?_cons, usableAt?, ← of_candidate_settings
        (Path.join directory configurationFile)]
      cases candidate : ofCandidate (Path.join directory configurationFile)
        (system.read state (Path.join directory configurationFile)) with
      | mk settings events =>
          cases settings with
          | none =>
              rw [search_of_unusable system state candidate]
              exact ⟨unchanged, later⟩
          | some settings =>
              rw [search_of_usable system state candidate]
              exact ⟨rfl, rfl⟩

theorem discover_unchanged (start : String) : (discover system.access start state).2 = state :=
  (search_eq system state _).1

theorem found_eq (start : String) : found system state start =
    ((candidates start).findSome? (usableAt? system state)).getD standard :=
  (search_eq system state _).2

variable {system state} {start path : String} {before after : List String}

/-- Files that cannot be used are passed over, whatever is wrong with them. -/
theorem found_after_unusable (files : candidates start = before ++ path :: after)
    (passed : ∀ file ∈ before, usableAt? system state file = none) : found system state start =
      ((path :: after).findSome? (usableAt? system state)).getD standard := by
  rw [found_eq, files, List.findSome?_append, List.findSome?_eq_none_iff.mpr passed,
    Option.none_or]

theorem found_of_usable (files : candidates start = before ++ path :: after)
    (passed : ∀ file ∈ before, usableAt? system state file = none) {settings : Settings}
    (usable : usableAt? system state path = some settings) :
    found system state start = settings := by
  rw [found_after_unusable files passed, List.findSome?_cons, usable, Option.getD_some]

theorem usable_at_not_found (missing : system.read state path = .error .notFound) :
    usableAt? system state path = none := by
  rw [usableAt?, missing]
  rfl

end Search

/-- The nearest file that can be used decides about the settings. -/
structure NearestUsableDecides {State Place : Type} (system : FileSystem State Place)
    (state : State) (start : String) : Prop where
  unchanged : (discover system.access start state).2 = state
  few : (candidates start).length ≤ searchLimit
  nearest : ∀ before path after settings, candidates start = before ++ path :: after →
    (∀ file ∈ before, usableAt? system state file = none) →
    usableAt? system state path = some settings →
    found system state start = settings ∧ ∀ other,
      (∀ file ∈ before ++ [path], system.read other file = system.read state file) →
      found system other start = settings
  none_usable : (∀ file ∈ candidates start, usableAt? system state file = none) →
    found system state start = standard
  nearest_present : ∀ before path after, candidates start = before ++ path :: after →
    (∀ file ∈ before, system.read state file = .error .notFound) →
    (usableAt? system state path = none → ∀ file ∈ after, usableAt? system state file = none) →
    found system state start = (usableAt? system state path).getD standard

/-- The nearest file that is present decides, be it usable or not. -/
structure NearestPresentDecides {State Place : Type} (system : FileSystem State Place)
    (state : State) (start : String) : Prop where
  nearest : ∀ before path after, candidates start = before ++ path :: after →
    (∀ file ∈ before, system.read state file = .error .notFound) →
    system.read state path ≠ .error .notFound →
    found system state start = (usableAt? system state path).getD standard
  none_present : (∀ file ∈ candidates start, system.read state file = .error .notFound) →
    found system state start = standard

/-- The search finds what is usable nearest to where it starts, and the standard settings where
nothing is. What is present but unusable ends it only where nothing above it is usable. -/
theorem nearest_usable_decides {State Place : Type} (system : FileSystem State Place)
    (state : State) (start : String) : NearestUsableDecides system state start := by
  constructor
  case unchanged => exact discover_unchanged system state start
  case few =>
    rw [candidates, List.length_map]
    exact length_ancestors_le searchLimit start
  case nearest =>
    intro before path after settings files passed usable
    refine ⟨found_of_usable files passed usable, fun other same => ?_⟩
    have alike : ∀ file ∈ before ++ [path],
        usableAt? system other file = usableAt? system state file := by
      intro file member
      rw [usableAt?, usableAt?, same file member]
    apply found_of_usable files
    · intro file member
      rw [alike file (List.mem_append_left _ member), passed file member]
    · rw [alike path List.mem_concat_self, usable]
  case none_usable =>
    intro unusable
    rw [found_eq, List.findSome?_eq_none_iff.mpr unusable, Option.getD_none]
  case nearest_present =>
    intro before path after files missing above
    have passed : ∀ file ∈ before, usableAt? system state file = none :=
      fun file member => usable_at_not_found (missing file member)
    rw [found_after_unusable files passed, List.findSome?_cons]
    cases usable : usableAt? system state path with
    | some settings => rfl
    | none => rw [List.findSome?_eq_none_iff.mpr (above usable)]

section Nested

/-- A project with a usable configuration, and a directory in it whose own one has no separator. -/
def nestedProject : FileTree where
  entries := [(["project", configurationFile],
      .file (Json.bytesOf "[output]\ndefault_format = \"json\"\n")),
    (["project", "part", configurationFile],
      .file (Json.bytesOf "[call_graph]\nseparator = \"\"\n"))]

theorem candidates_in_part : candidates "/project/part" =
    ["/project/part/.archmap.toml", "/project/.archmap.toml", "/.archmap.toml"] := by
  decide +kernel

theorem part_unusable : usableAt? (FileTree.system []) nestedProject
    "/project/part/.archmap.toml" = none := by
  rw [← Option.isNone_iff_eq_none]
  decide +kernel

/-- Above the unusable configuration of the part, that of the project is found. -/
theorem project_configuration_found :
    ∃ settings, usableAt? (FileTree.system []) nestedProject "/project/.archmap.toml" =
      some settings ∧ settings.defaultFormat = some "json" ∧
      found (FileTree.system []) nestedProject "/project/part" = settings := by
  have given : ((usableAt? (FileTree.system []) nestedProject "/project/.archmap.toml").bind
      defaultFormat) = some "json" := by decide +kernel
  obtain ⟨settings, usable, format⟩ := Option.bind_eq_some_iff.mp given
  have decides := nearest_usable_decides (FileTree.system []) nestedProject "/project/part"
  have passed : ∀ file ∈ ["/project/part/.archmap.toml"],
      usableAt? (FileTree.system []) nestedProject file = none := by
    simpa using part_unusable
  exact ⟨settings, usable, format,
    (decides.nearest _ _ _ settings candidates_in_part passed usable).1⟩

/-- The nearest file that is present does not decide: the unusable one of the part does not lead to
the standard settings. -/
theorem present_file_passed_over :
    ¬NearestPresentDecides (FileTree.system []) nestedProject "/project/part" := by
  intro decides
  have present : nestedProject.read [] "/project/part/.archmap.toml" ≠ .error .notFound := by
    decide +kernel
  have standing := decides.nearest [] _ _ candidates_in_part (by simp) present
  rw [part_unusable, Option.getD_none] at standing
  have format : (found (FileTree.system []) nestedProject "/project/part").defaultFormat =
      some "json" := by decide +kernel
  rw [standing] at format
  cases format

end Nested

end Settings

end Cohesion
