import Cohesion.Report.Format
import Cohesion.Report.Json
import Cohesion.Report.Markdown
import Cohesion.Report.Terminal

/-!
The text of a report in a format. Only the terminal format has colours.
-/

namespace Cohesion

def Report.text (format : OutputFormat) (coloured : Bool) (report : Report Float) : String :=
  match format with
  | .json => report.jsonText
  | .markdown => report.markdown
  | .terminal => report.terminal coloured

end Cohesion
