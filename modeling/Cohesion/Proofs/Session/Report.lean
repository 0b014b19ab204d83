import Cohesion.Proofs.Settings.Search
import Cohesion.Session.Commands

/-!
# A failed analysis leaves everything as it was

All that can go wrong in an analysis goes wrong before something is printed or written. The steps up
to the finished report are quiet: they note what happens, but print nothing and change no file.
The report is then printed, or written as a whole to a path that can be written.
-/

namespace Cohesion.Session

section Quiet

variable {State Value Result Final : Type}

def resume (found : Except Failure Value) (next : Value → Step (StateM State) Final)
    (before : String × List Entry) (state : State) :
    (Except Failure Final × String × List Entry) × State :=
  match found with
  | .error failure => ((.error failure, before), state)
  | .ok value => ((next value).run.run before).run state

/-- Whatever has been printed and noted before, the step first finds a value or fails. So far it
prints nothing and leaves the state as it is. -/
def Prepares (step : Step (StateM State) Final) (state : State) (found : Except Failure Value)
    (next : Value → Step (StateM State) Final) : Prop :=
  ∀ output journal, ∃ entries, (step.run.run (output, journal)).run state =
    resume found next (output, journal ++ entries) state

def Quiet (step : Step (StateM State) Value) (state : State) (found : Except Failure Value) :
    Prop :=
  Prepares step state found pure

variable {state : State}

theorem prepares_ok (value : Value) (next : Value → Step (StateM State) Final) :
    Prepares (next value) state (.ok value) next :=
  fun _ _ => ⟨[], by rw [List.append_nil]; rfl⟩

theorem quiet_pure (value : Value) : Quiet (pure value) state (.ok value) :=
  prepares_ok value pure

theorem quiet_fail (cause : Cause) (context : List String) :
    Quiet (fail cause context : Step _ Value) state (.error ⟨cause, context⟩) :=
  fun _ _ => ⟨[], by rw [List.append_nil]; rfl⟩

theorem quiet_note (entries : List Entry) : Quiet (note entries) state (.ok ()) :=
  fun _ _ => ⟨entries, rfl⟩

theorem run_perform (action : StateM State Value) (before : String × List Entry) :
    ((perform action).run.run before).run state =
      ((.ok (action state).1, before), (action state).2) :=
  rfl

theorem quiet_perform {action : StateM State Value} {value : Value}
    (unchanged : action state = (value, state)) : Quiet (perform action) state (.ok value) := by
  intro output journal
  refine ⟨[], ?_⟩
  rw [run_perform, unchanged, List.append_nil]
  rfl

theorem run_bind (step : Step (StateM State) Value) (next : Value → Step (StateM State) Result)
    (before : String × List Entry) : ((step >>= next).run.run before).run state =
      match (step.run.run before).run state with
      | ((.ok value, after), reached) => ((next value).run.run after).run reached
      | ((.error failure, after), reached) => ((.error failure, after), reached) := by
  change (match (step.run.run before).run state with
    | ((result, after), reached) => (ExceptT.bindCont next result).run after |>.run reached) = _
  obtain ⟨⟨result, after⟩, reached⟩ := (step.run.run before).run state
  cases result <;> rfl

variable {step : Step (StateM State) Value} {next : Value → Step (StateM State) Final}
  {final : Result → Step (StateM State) Final}

theorem Quiet.bind {found : Except Failure Value} {result : Value → Except Failure Result}
    (quiet : Quiet step state found)
    (later : ∀ value, found = .ok value → Prepares (next value) state (result value) final) :
    Prepares (step >>= next) state (found >>= result) final := by
  intro output journal
  obtain ⟨entries, first⟩ := quiet output journal
  rw [run_bind, first]
  cases found with
  | error failure => exact ⟨entries, rfl⟩
  | ok value =>
      obtain ⟨more, second⟩ := later value rfl output (journal ++ entries)
      exact ⟨entries ++ more, by rw [← List.append_assoc]; exact second⟩

theorem Quiet.then {value : Value} {result : Except Failure Result}
    (quiet : Quiet step state (.ok value)) (later : Prepares (next value) state result final) :
    Prepares (step >>= next) state result final := by
  change Prepares _ state (Except.ok value >>= fun _ => result) _
  refine quiet.bind fun other same => ?_
  cases same
  exact later

theorem Quiet.stop {failure : Failure} (quiet : Quiet step state (.error failure)) :
    Prepares (step >>= next) state (.error failure : Except Failure Result) final := by
  change Prepares _ state (Except.error failure >>= fun _ : Value => .error failure) _
  refine quiet.bind fun other same => ?_
  cases same

end Quiet

section Report

variable {State Place : Type} (system : FileSystem State Place) (state : State)

def settingsIn (directory : Except FileError String) : Option String → Except Failure Settings
  | none =>
      match directory with
      | .ok directory => .ok (Settings.found system state directory)
      | .error _ => .ok .standard
  | some path =>
      let context := ["Failed to load configuration"]
      match (system.read state path).bind textOf with
      | .error error => .error ⟨.input path error, context⟩
      | .ok text => (Settings.parse text).mapError fun error => ⟨.configuration error, context⟩

def callGraphIn (path : String) : Except Failure CallGraph :=
  let context := ["Failed to load call graph " ++ path]
  match system.read state path with
  | .error .isDirectory => .error ⟨.callGraph .unreadable, context⟩
  | .error error => .error ⟨.input path error, context⟩
  | .ok bytes => (CallGraph.ofBytes bytes).mapError fun defect => ⟨.callGraph defect, context⟩

def reportIn (surroundings : Surroundings) (request : AnalysisRequest) :
    Except Failure String := do
  let settings ← settingsIn system state surroundings.directory request.config
  let options ← (settings.options request.separator request.thresholds request.stage).mapError
    fun error => ⟨.configuration error, []⟩
  let graph ← callGraphIn system state request.callGraph
  let report ← (analyse graph options).2.mapError fun error => ⟨.analysis error, []⟩
  pure (report.text (settings.format request.format)
    (settings.coloured (request.plain || request.output.isSome) surroundings.showsColours))

def deliver (output : Option String) (text : String) : Step (StateM State) Unit :=
  match output with
  | some path => writeReport system.access path text
  | none => print text

variable {system state}

theorem quiet_read (path : String) :
    Quiet (perform (system.access.read path)) state (.ok (system.read state path)) :=
  quiet_perform rfl

theorem quiet_settings (directory : Except FileError String) (named : Option String) :
    Quiet (settings system.access directory named) state
      (settingsIn system state directory named) := by
  cases named with
  | none =>
      cases directory with
      | error error => exact (quiet_note _).then (quiet_pure _)
      | ok directory =>
          have search : Quiet (perform (Settings.discover system.access directory)) state
              (.ok (Settings.discover system.access directory state).1) :=
            quiet_perform (Prod.ext rfl (Settings.discover_unchanged system state directory))
          exact search.then ((quiet_note _).then (quiet_pure _))
  | some path =>
      refine (quiet_read path).then ?_
      rw [settingsIn]
      cases (system.read state path).bind textOf with
      | error error => exact quiet_fail _ _
      | ok text =>
          dsimp only
          cases Settings.parse text with
          | error error => exact quiet_fail _ _
          | ok found => exact quiet_pure _

theorem quiet_call_graph (path : String) : Quiet (callGraph system.access path) state
    (callGraphIn system state path) := by
  refine (quiet_read path).then ?_
  rw [callGraphIn]
  cases system.read state path with
  | error error =>
      cases error with
      | _ => exact (quiet_fail _ _).stop
  | ok bytes =>
      dsimp only
      cases CallGraph.ofBytes bytes with
      | error defect => exact (quiet_fail _ _).stop
      | ok graph => exact (quiet_pure _).then ((quiet_note _).then (quiet_pure _))

/-- Up to the finished report, an analysis is quiet. -/
theorem analysis_prepares (surroundings : Surroundings) (request : AnalysisRequest) :
    Prepares (analysis system.access surroundings request) state
      (reportIn system state surroundings request) (deliver system request.output) := by
  refine (quiet_settings surroundings.directory request.config).bind fun settings _ => ?_
  cases settings.options request.separator request.thresholds request.stage with
  | error error => exact (quiet_fail _ _).stop
  | ok options =>
      refine (quiet_pure options).then ?_
      refine (quiet_call_graph request.callGraph).bind fun graph _ => ?_
      generalize analyse graph options = analysed
      obtain ⟨events, result⟩ := analysed
      refine (quiet_note _).then ?_
      cases result with
      | error error => exact (quiet_fail _ _).stop
      | ok report =>
          refine (quiet_pure report).then ?_
          exact prepares_ok _ (deliver system request.output)

theorem finish_of_prepares {step : Step (StateM State) Unit} {Value : Type}
    {found : Except Failure Value} {next : Value → Step (StateM State) Unit}
    (prepares : Prepares step state found next) : ∃ entries, finish step state =
      let ((result, output, journal), after) := resume found next ("", entries) state
      (⟨result, output, journal⟩, after) := by
  obtain ⟨entries, run⟩ := prepares "" []
  rw [List.nil_append] at run
  refine ⟨entries, ?_⟩
  rw [← run]
  rfl

end Report

section Outcome

variable {State Place : Type} (system : FileSystem State Place) (surroundings : Surroundings)
  (request : AnalysisRequest) (state : State)

def analysed : Outcome × State := finish (analysis system.access surroundings request) state

/-- Why an analysis fails: there is no report, or no place to write it to. -/
def Fails (failure : Failure) : Prop :=
  reportIn system state surroundings request = .error failure ∨
    ∃ text path error, reportIn system state surroundings request = .ok text ∧
      request.output = some path ∧ system.target state path = .error error ∧
      failure = ⟨.file error, ["Failed to create " ++ path]⟩

/-- The file at a path has this content after a write, and no other file differs. -/
structure Written (path : String) (content : List UInt8) (after : State) : Prop where
  place : ∃ place, system.target state path = .ok place ∧
    system.node? after place = some (.file content) ∧
    ∀ other, other ≠ place → system.node? after other = system.node? state other
  read : system.read after path = .ok content

inductive Ends : Outcome × State → Prop where
  | failed {failure : Failure} (cause : Fails system surroundings request state failure)
      (journal : List Entry) : Ends (⟨.error failure, "", journal⟩, state)
  | printed {text : String} (report : reportIn system state surroundings request = .ok text)
      (output : request.output = none) (journal : List Entry) :
      Ends (⟨.ok (), text, journal⟩, state)
  | written {text path : String} (report : reportIn system state surroundings request = .ok text)
      (output : request.output = some path) {after : State}
      (written : Written system state path (Json.bytesOf text) after) (journal : List Entry) :
      Ends (⟨.ok (), "", journal⟩, after)

theorem written_by_put {path : String} {place : Place} (content : List UInt8)
    (found : system.target state path = .ok place) :
    Written system state path content (system.put state place content) where
  place := ⟨place, found, system.node_of_put content found,
    fun _ differs => system.node_of_put_elsewhere content found differs⟩
  read := system.read_of_put content found

theorem run_write_report (path text output : String) (journal : List Entry) :
    ((writeReport system.access path text).run.run (output, journal)).run state =
      match system.target state path with
      | .ok place => ((.ok (), output, journal ++ [⟨.info, "Report written path=" ++ path⟩]),
          system.put state place (Json.bytesOf text))
      | .error error =>
          ((.error ⟨.file error, ["Failed to create " ++ path]⟩, output, journal), state) := by
  rw [writeReport, run_bind, run_perform, system.access_write]
  cases system.target state path <;> rfl

theorem analysis_ends : Ends system surroundings request state
    (analysed system surroundings request state) := by
  obtain ⟨entries, finished⟩ := finish_of_prepares (analysis_prepares surroundings request)
  rw [analysed, finished]
  cases report : reportIn system state surroundings request with
  | error failure => exact .failed (.inl report) entries
  | ok text =>
      unfold resume deliver
      cases output : request.output with
      | none =>
          have printed := Ends.printed report output entries
          rwa [← String.empty_append (s := text)] at printed
      | some path =>
          dsimp only
          rw [run_write_report]
          cases found : system.target state path with
          | ok place => exact .written report output (written_by_put system state _ found) _
          | error error =>
              exact .failed (.inr ⟨text, path, error, report, output, found, rfl⟩) entries

/-- An analysis either fails and leaves everything as it was, or makes its report and nothing
else. -/
structure AllOrNothing (outcome : Outcome) (after : State) : Prop where
  failed : ∀ failure, outcome.result = .error failure →
    Fails system surroundings request state failure ∧ outcome.output = "" ∧ after = state
  succeeded : outcome.result = .ok () → ∃ text,
    reportIn system state surroundings request = .ok text ∧
    match request.output with
    | none => outcome.output = text ∧ after = state
    | some path => outcome.output = "" ∧ Written system state path (Json.bytesOf text) after

theorem AllOrNothing.of_ends {outcome : Outcome} {after : State}
    (ends : Ends system surroundings request state (outcome, after)) :
    AllOrNothing system surroundings request state outcome after := by
  cases ends with
  | failed cause journal =>
      refine ⟨fun failure same => ?_, fun ok => ?_⟩
      · cases same
        exact ⟨cause, rfl, rfl⟩
      · cases ok
  | printed report output journal =>
      refine ⟨fun failure error => ?_, fun _ => ⟨_, report, ?_⟩⟩
      · cases error
      · rw [output]
        exact ⟨rfl, rfl⟩
  | written report output written journal =>
      refine ⟨fun failure error => ?_, fun _ => ⟨_, report, ?_⟩⟩
      · cases error
      · rw [output]
        exact ⟨rfl, written⟩

/-- A failed analysis prints nothing and changes no file, and one that succeeds prints its report or
writes it to the output path. -/
theorem analysis_all_or_nothing : AllOrNothing system surroundings request state
    (analysed system surroundings request state).1 (analysed system surroundings request state).2 :=
  .of_ends _ _ _ _ (analysis_ends system surroundings request state)

end Outcome

section Trees

/-- A call graph in a file, and a report of some time ago. -/
def reportedTree : FileTree where
  entries := [(["calls.json"], .file (Json.bytesOf "\x7b\"A.a\": [\"B.b\"]\x7d")),
    (["report.md"], .file (Json.bytesOf "# Architecture Report"))]

def reportInput (separator : Option String) : InputArguments where
  callGraph := "calls.json"
  config := none
  separator := separator
  format := some .markdown
  output := some "report.md"
  plain := false

/-- There is no working directory to start a search from, and a terminal that shows colours. -/
def unknownDirectory : Surroundings := ⟨.error .notFound, true⟩

def reportRun (separator : Option String) : Outcome × FileTree :=
  (Command.coupling (reportInput separator)).runIn (FileTree.access []) unknownDirectory reportedTree

theorem report_run_eq (separator : Option String) : reportRun separator =
    analysed (FileTree.system []) unknownDirectory ((reportInput separator).request .coupling none)
      reportedTree := by
  rw [reportRun, FileTree.access_eq]
  rfl

def newReport : String := unlines
  ["# Architecture Report", "", "| Metric | Value |", "|--------|-------|", "| Callers | 1 |",
    "| Call relations | 1 |", "| Classes | 2 |", "| Coupling edges | 1 |", "", "## Coupling", "",
    "| From | To | Weight |", "|------|----|--------|", "| A | B | 1.0000 |", ""]

/-- A new report replaces the old one and nothing else. With a separator that is refused the old
report is kept. -/
theorem old_report_replaced_or_kept :
    ((reportRun none).1.result = .ok () ∧ (reportRun none).1.output = "" ∧
      (reportRun none).2.read [] "report.md" = .ok (Json.bytesOf newReport) ∧
      ∀ place, place ≠ ["report.md"] → (reportRun none).2.get? place = reportedTree.get? place) ∧
    (∃ failure, (reportRun (some "")).1.result = .error failure) ∧
      (reportRun (some "")).1.output = "" ∧ (reportRun (some "")).2 = reportedTree := by
  have whole (separator : Option String) := analysis_all_or_nothing (FileTree.system [])
    unknownDirectory ((reportInput separator).request .coupling none) reportedTree
  simp only [← report_run_eq] at whole
  constructor
  · have ends : (reportRun none).1.result.toBool = true := by decide +kernel
    have succeeds : (reportRun none).1.result = .ok () := by
      cases result : (reportRun none).1.result with
      | ok => rfl
      | error failure =>
          rw [result] at ends
          cases ends
    obtain ⟨text, report, silent, written⟩ := (whole none).succeeded succeeds
    have same : (reportIn (FileTree.system []) reportedTree unknownDirectory
        ((reportInput none).request .coupling none)).toOption = some newReport := by decide +kernel
    rw [report] at same
    cases same
    obtain ⟨place, target, _, others⟩ := written.place
    have found : reportedTree.target [] "report.md" = .ok ["report.md"] := by decide +kernel
    cases found.symm.trans target
    exact ⟨succeeds, silent, written.read, others⟩
  · have ends : (reportRun (some "")).1.result.toBool = false := by decide +kernel
    cases result : (reportRun (some "")).1.result with
    | ok =>
        rw [result] at ends
        cases ends
    | error failure =>
        obtain ⟨_, silent, kept⟩ := (whole (some "")).failed failure result
        exact ⟨⟨failure, rfl⟩, silent, kept⟩

end Trees

end Cohesion.Session
