import Cohesion.Decimal.Layout
import Cohesion.Report.Format

/-!
Settings of the program. Each section and each field may be absent; the effective values fall back
to defaults. A field that is given must be usable, and all fields that are not are reported
together.
-/

namespace Cohesion

inductive FieldError where
  | emptySeparator
  | thresholdNotFinite (value : Float)
  | unknownFormat (name : String)

namespace FieldError

def field : FieldError → String
  | emptySeparator => "call_graph.separator"
  | thresholdNotFinite _ => "clustering.threshold"
  | unknownFormat _ => "output.default_format"

def message : FieldError → String
  | emptySeparator => "must not be empty"
  | thresholdNotFinite value => "must be a finite number (got " ++ Decimal.plain value ++ ")"
  | unknownFormat name =>
      "unknown format '" ++ name ++ "' (expected terminal, json or markdown)"

def text (error : FieldError) : String := error.field ++ ": " ++ error.message

end FieldError

/-- A separator without text, fields that cannot be used, or a text that is not a configuration. -/
inductive ConfigurationError where
  | emptySeparator
  | invalidFields (errors : List FieldError)
  | notParsed

def configurationFile : String := ".archmap.toml"

def ConfigurationError.message : ConfigurationError → String
  | emptySeparator => "Configuration error: class separator must not be empty"
  | invalidFields errors =>
      "Configuration error: " ++ String.intercalate "; " (errors.map FieldError.text)
  | notParsed => "Configuration error: Failed to parse " ++ configurationFile

structure CallGraphSection where
  separator : Option String

structure ClusteringSection where
  threshold : Option Float

structure OutputSection where
  defaultFormat : Option String
  useColor : Option Bool

structure Settings where
  callGraph : Option CallGraphSection
  clustering : Option ClusteringSection
  output : Option OutputSection

namespace Settings

def standard : Settings := ⟨none, none, none⟩

def standardSeparator : String := "."

def standardThreshold : Float := 0.05

def separatorGiven (settings : Settings) : Option String :=
  settings.callGraph.bind CallGraphSection.separator

def thresholdGiven (settings : Settings) : Option Float :=
  settings.clustering.bind ClusteringSection.threshold

def separator (settings : Settings) : String := settings.separatorGiven.getD standardSeparator

def threshold (settings : Settings) : Float := settings.thresholdGiven.getD standardThreshold

def defaultFormat (settings : Settings) : Option String :=
  settings.output.bind OutputSection.defaultFormat

def useColor (settings : Settings) : Option Bool := settings.output.bind OutputSection.useColor

/-- The fields that cannot be used, in the order of the sections. -/
def fieldErrors (settings : Settings) : List FieldError :=
  (match settings.separatorGiven with
    | some separator => if separator.isEmpty then [.emptySeparator] else []
    | none => []) ++
  (match settings.thresholdGiven with
    | some threshold => if threshold.isFinite then [] else [.thresholdNotFinite threshold]
    | none => []) ++
  (match settings.defaultFormat with
    | some name => if (OutputFormat.parse? name).isNone then [.unknownFormat name] else []
    | none => [])

def validate (settings : Settings) : Except ConfigurationError Unit :=
  let errors := settings.fieldErrors
  if errors.isEmpty then .ok () else .error (.invalidFields errors)

end Settings

end Cohesion
