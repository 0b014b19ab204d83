import Cohesion.CommandLine.Basic
import Cohesion.Json.Graph
import Cohesion.Report.Text
import Cohesion.Session.Failure
import Cohesion.Settings.Discovery
import Cohesion.Settings.Options

/-!
The commands. Each works on files through the given access, and tells what it prints, what it
notes, and whether it succeeds. A report goes to the output file if one is given, and is printed
otherwise; the output file is written last, so a command that fails has written nothing.
-/

namespace Cohesion

structure Outcome where
  result : Except Failure Unit
  output : String
  journal : List Entry

/-- What a command finds around it: its working directory, or why there is none, and whether what it
prints is detected to be shown in colours. -/
structure Surroundings where
  directory : Except FileError String
  showsColours : Bool

structure AnalysisRequest where
  callGraph : String
  config : Option String
  separator : Option String
  format : Option OutputFormat
  output : Option String
  plain : Bool
  stage : Stage
  thresholds : Option (List Float)

namespace Session

/-- A command in the making: it may fail, prints, and notes. -/
abbrev Step (m : Type → Type) (Value : Type) :=
  ExceptT Failure (StateT (String × List Entry) m) Value

variable {m : Type → Type} [Monad m] {Value : Type}

def fail (cause : Cause) (context : List String) : Step m Value := throw ⟨cause, context⟩

def print (text : String) : Step m Unit :=
  modify fun (output, journal) => (output ++ text, journal)

def note (entries : List Entry) : Step m Unit :=
  modify fun (output, journal) => (output, journal ++ entries)

def perform (action : m Value) : Step m Value := ExceptT.lift (StateT.lift action)

def finish (step : Step m Unit) : m Outcome := do
  let (result, output, journal) ← step.run.run ("", [])
  pure ⟨result, output, journal⟩

/-- The settings from the named file, or those that the search finds. Without a directory to start
from there is no search. -/
def settings (files : FileAccess m) (directory : Except FileError String) (named : Option String) :
    Step m Settings := do
  let context := ["Failed to load configuration"]
  match named with
  | none =>
      match directory with
      | .ok directory =>
          let (found, events) ← perform (Settings.discover files directory)
          note (events.map SearchEvent.entry)
          pure found
      | .error error =>
          note [⟨.warning, "Failed to get current directory: " ++ error.message ++
            ". Using default config."⟩]
          pure .standard
  | some path =>
      match (← perform (files.read path)).bind textOf with
      | .error error => fail (.input path error) context
      | .ok text =>
          match Settings.parse text with
          | .error error => fail (.configuration error) context
          | .ok found => pure found

/-- The call graph in a file. A directory can be opened, but there is nothing to read in it. -/
def callGraph (files : FileAccess m) (path : String) : Step m CallGraph := do
  let context := ["Failed to load call graph " ++ path]
  let graph ← match ← perform (files.read path) with
    | .error .isDirectory => fail (.callGraph .unreadable) context
    | .error error => fail (.input path error) context
    | .ok bytes =>
        match CallGraph.ofBytes bytes with
        | .error defect => fail (.callGraph defect) context
        | .ok graph => pure graph
  note [⟨.info, "Loaded call graph path=" ++ path ++ " callers=" ++ toString graph.callerCount⟩]
  pure graph

def writeReport (files : FileAccess m) (path text : String) : Step m Unit := do
  match ← perform (files.write path (Json.bytesOf text)) with
  | .error error => fail (.file error) ["Failed to create " ++ path]
  | .ok () => note [⟨.info, "Report written path=" ++ path⟩]

def analysis (files : FileAccess m) (surroundings : Surroundings) (request : AnalysisRequest) :
    Step m Unit := do
  let settings ← settings files surroundings.directory request.config
  let options ← match settings.options request.separator request.thresholds request.stage with
    | .error error => fail (.configuration error) []
    | .ok options => pure options
  let graph ← callGraph files request.callGraph
  let (events, result) := analyse graph options
  note (events.map AnalysisEvent.entry)
  let report ← match result with
    | .error error => fail (.analysis error) []
    | .ok report => pure report
  let coloured := settings.coloured (request.plain || request.output.isSome)
    surroundings.showsColours
  let text := report.text (settings.format request.format) coloured
  match request.output with
  | some path => writeReport files path text
  | none => print text

def initialise (files : FileAccess m) (force : Bool) : Step m Unit := do
  if !force && (← perform (files.isFile configurationFile)) then
    fail .configurationExists []
  match ← perform (files.write configurationFile (Json.bytesOf Settings.template)) with
  | .error error => fail (.file error) []
  | .ok () =>
      note [⟨.debug, "Wrote default configuration path=" ++ configurationFile⟩]
      print ("Created " ++ configurationFile ++ " configuration file\n")

end Session

def InputArguments.request (input : InputArguments) (stage : Stage)
    (thresholds : Option (List Float)) : AnalysisRequest where
  callGraph := input.callGraph
  config := input.config
  separator := input.separator
  format := input.format
  output := input.output
  plain := input.plain
  stage := stage
  thresholds := thresholds

namespace Command

variable {m : Type → Type} [Monad m] (files : FileAccess m)

def runIn (surroundings : Surroundings) : Command → m Outcome
  | coupling input =>
      Session.finish (Session.analysis files surroundings (input.request .coupling none))
  | dendrogram input =>
      Session.finish (Session.analysis files surroundings (input.request .dendrogram none))
  | modules input thresholds =>
      Session.finish (Session.analysis files surroundings (input.request .modules thresholds))
  | init force => Session.finish (Session.initialise files force)

/-- A run from a directory whose output is read by something that shows no colours. -/
def run (directory : String) (command : Command) : m Outcome :=
  command.runIn files ⟨.ok directory, false⟩

end Command

end Cohesion
