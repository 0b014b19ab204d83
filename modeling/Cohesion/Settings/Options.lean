import Cohesion.Analysis.Basic
import Cohesion.Settings.Basic

/-!
From settings and command line flags to what an analysis needs. A flag goes before the setting,
and the setting before the default.
-/

namespace Cohesion

namespace Settings

/-- The options of an analysis. An empty list of thresholds counts as absent. -/
def options (settings : Settings) (separatorFlag : Option String)
    (thresholdFlags : Option (List Float)) (stage : Stage) :
    Except ConfigurationError (AnalysisOptions Float) :=
  match Separator.ofString? (separatorFlag.getD settings.separator) with
  | none => .error .emptySeparator
  | some separator =>
      let thresholds := match thresholdFlags with
        | some (first :: rest) => first :: rest
        | _ => [settings.threshold]
      .ok ⟨separator, stage, thresholds⟩

def format (settings : Settings) (flag : Option OutputFormat) : OutputFormat :=
  (flag <|> settings.defaultFormat.bind OutputFormat.parse?).getD .terminal

/-- Whether the report has colours: never when they are switched off, else as the settings say, and
where these say nothing, as has been detected. -/
def coloured (settings : Settings) (off detected : Bool) : Bool :=
  !off && settings.useColor.getD detected

end Settings

end Cohesion
