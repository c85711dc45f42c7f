import KeyRemap.Issue
import KeyRemap.Document.Json

/-!
# Issues as JSON
-/
namespace KeyRemap

def Severity.tag : Severity → String
  | .error => "error"
  | .warning => "warning"

def Issue.toJson (i : Issue) : Json := .object (Json.present [
  ("kind", some (.string i.finding.kind.tag)),
  ("severity", some (.string i.finding.severity.tag)),
  ("line", some (.int i.position.line)), ("column", some (.int i.position.column)),
  ("message", some (.string i.finding.message)),
  ("suggestion", i.finding.suggestion.map .string),
  ("related", i.finding.related.map Position.toJson)])

end KeyRemap
