/-!
The formats of a report.
-/

namespace Cohesion

inductive OutputFormat where
  | json
  | markdown
  | terminal
  deriving DecidableEq

namespace OutputFormat

def name : OutputFormat → String
  | json => "json"
  | markdown => "markdown"
  | terminal => "terminal"

def ofName? (name : String) : Option OutputFormat :=
  [json, markdown, terminal].find? fun format => format.name == name

def lowered (text : String) : String := String.ofList (text.toList.map Char.toLower)

/-- The format that a text names in any case; markdown has a short name too. -/
def parse? (text : String) : Option OutputFormat :=
  match lowered text with
  | "json" => some json
  | "markdown" => some markdown
  | "md" => some markdown
  | "terminal" => some terminal
  | _ => none

def unknownMessage (text : String) : String := "unknown output format '" ++ lowered text ++ "'"

end OutputFormat

end Cohesion
