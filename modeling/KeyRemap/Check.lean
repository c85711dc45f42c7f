import KeyRemap.Fault.Json
import KeyRemap.Issue.Json
import KeyRemap.Overview
import KeyRemap.Script.Read
import KeyRemap.Validation

/-!
# Checks

What is found out about a script when it is read and judged.
-/
namespace KeyRemap

inductive Check where
  /-- The text is not a script. -/
  | unreadable (e : SyntaxError)
  | judged (report : Report) (summary : Document.Summary)

namespace Check

/-- The report on a document with its counts. -/
def ofDocument (v : Vocabulary) (d : Document) : Check :=
  .judged (.ofIssues (d.issues v)) d.summary

/-- Checks a text of at most `limit` bytes. -/
def ofSource (v : Vocabulary) (limit : Nat) (source : String) : Check :=
  match Script.read limit source with
  | .error e => .unreadable e
  | .ok d => ofDocument v d

/-- Whether the text is a script without errors. -/
def isValid : Check → Bool
  | .unreadable _ => false
  | .judged report _ => report.isValid

def toJson (c : Check) : Json :=
  let issues (is : List Issue) : Json := .array (is.map Issue.toJson)
  .object (match c with
    | .unreadable e => [
        ("valid", .bool false), ("parse_error", e.toFault.toJson), ("errors", issues []),
        ("warnings", issues [])]
    | .judged report summary => [
        ("valid", .bool report.isValid), ("errors", issues report.errors),
        ("warnings", issues report.warnings), ("summary", summary.toJson)])

end Check

end KeyRemap
