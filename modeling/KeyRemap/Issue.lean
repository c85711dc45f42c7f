import KeyRemap.Mapping
import KeyRemap.Position
import KeyRemap.Text.Printable

/-!
# Issues

What can be wrong with a document although its script can be read. Errors keep a document from
being used; warnings do not.
-/
namespace KeyRemap

inductive Severity where
  | error | warning
deriving DecidableEq, Repr

/-- The sorts of issues. -/
inductive IssueKind where
  | unknownKey | timeoutOutOfRange | duplicateSource | unresolvedLayer | invalidPattern
  | duplicatePattern | invalidLayerName | duplicateLayer | emptySequence
deriving DecidableEq, Repr

/-- A sort of issues as reports name it. -/
def IssueKind.title : IssueKind → String
  | .unknownKey => "Unknown Key"
  | .timeoutOutOfRange => "Timeout Out of Range"
  | .duplicateSource => "Duplicate Source Key"
  | .unresolvedLayer => "Unresolved Layer"
  | .invalidPattern => "Invalid Device Pattern"
  | .duplicatePattern => "Duplicate Device Pattern"
  | .invalidLayerName => "Invalid Layer Name"
  | .duplicateLayer => "Duplicate Layer"
  | .emptySequence => "Empty Macro"

/-- A sort of issues as data names it. -/
def IssueKind.tag : IssueKind → String
  | .unknownKey => "unknown_key"
  | .timeoutOutOfRange => "timeout_out_of_range"
  | .duplicateSource => "duplicate_source"
  | .unresolvedLayer => "unresolved_layer"
  | .invalidPattern => "invalid_device_pattern"
  | .duplicatePattern => "duplicate_device_pattern"
  | .invalidLayerName => "invalid_layer_name"
  | .duplicateLayer => "duplicate_layer"
  | .emptySequence => "empty_macro"

/-- The least timeout of a tap-hold mapping, in milliseconds. -/
def minTimeout : Int := 1

/-- The greatest timeout of a tap-hold mapping, in milliseconds. -/
def maxTimeout : Int := 10000

/-- What is wrong, with all that its wording depends on. -/
inductive Finding where
  /-- No key has this name; `near` are the spellings close to it. -/
  | unknownKey (role : KeyRole) (name : String) (form : Form) (near : List String)
  | timeoutOutOfRange (timeout : Int)
  | emptySequence
  /-- No layer has this name; `near` is the declared name closest to it. -/
  | unresolvedLayer (layer : String) (near : Option String)
  /-- The key of a mapping at `again` has a mapping at `first` already. -/
  | duplicateSource (source scope : String) (first again : Position)
  | emptyPattern
  | controlInPattern (pattern : String)
  | duplicatePattern (pattern : String) (first : Position)
  | emptyLayerName
  | duplicateLayer (name : String) (first : Position)
deriving DecidableEq, Repr

namespace Finding

def kind : Finding → IssueKind
  | .unknownKey .. => .unknownKey
  | .timeoutOutOfRange .. => .timeoutOutOfRange
  | .emptySequence => .emptySequence
  | .unresolvedLayer .. => .unresolvedLayer
  | .duplicateSource .. => .duplicateSource
  | .emptyPattern | .controlInPattern _ => .invalidPattern
  | .duplicatePattern .. => .duplicatePattern
  | .emptyLayerName => .invalidLayerName
  | .duplicateLayer .. => .duplicateLayer

def severity : Finding → Severity
  | .duplicatePattern .. | .duplicateLayer .. => .warning
  | _ => .error

def message : Finding → String
  | .unknownKey role name form _ =>
    "unknown " ++ role.text ++ " \"" ++ name ++ "\" in " ++ form.name
  | .timeoutOutOfRange timeout =>
    s!"tap_hold timeout {timeout} ms is outside {minTimeout}..={maxTimeout}"
  | .emptySequence => "macro has no keys"
  | .unresolvedLayer layer _ => "layer \"" ++ layer ++ "\" is not declared"
  | .duplicateSource source scope first again =>
    "source key \"" ++ source ++ "\" is mapped twice in " ++ scope ++
      " (first at " ++ first.text ++ ", again at " ++ again.text ++ ")"
  | .emptyPattern => "device pattern is empty"
  | .controlInPattern pattern =>
    "device pattern \"" ++ Text.shownText pattern ++ "\" contains control characters"
  | .duplicatePattern pattern first =>
    "device pattern \"" ++ pattern ++ "\" is already used by the block at " ++ first.text
  | .emptyLayerName => "layer name is empty"
  | .duplicateLayer name first =>
    "layer \"" ++ name ++ "\" is already declared at " ++ first.text

/-- How to mend it. -/
def suggestion : Finding → Option String
  | .unknownKey _ _ _ [] => some "Run `mapsync keys` to list valid key names"
  | .unknownKey _ _ _ near => some ("Did you mean one of: " ++ ", ".intercalate near)
  | .timeoutOutOfRange _ => some "typical timeouts are 150-300 ms"
  | .emptySequence => some "add at least one key or remove the macro"
  | .unresolvedLayer _ (some near) => some ("did you mean \"" ++ near ++ "\"?")
  | .unresolvedLayer layer none =>
    some ("declare it with layer(\"" ++ layer ++ "\") \x7b ... \x7d")
  | .duplicateSource .. => some "remove one of the mappings"
  | .emptyPattern => some "use a device serial, name, or \"*\" for all devices"
  | .controlInPattern _ => none
  | .duplicatePattern .. => some "merge the two device blocks"
  | .emptyLayerName => some "give the layer a name, e.g. layer(\"nav\")"
  | .duplicateLayer .. => some "merge the two layer blocks"

/-- The place of the statement or block that this one conflicts with. -/
def related : Finding → Option Position
  | .duplicateSource _ _ first _ | .duplicatePattern _ first | .duplicateLayer _ first => some first
  | _ => none

end Finding

/-- A finding at the statement or block it is about. -/
structure Issue where
  finding : Finding
  position : Position
deriving DecidableEq, Repr

namespace Issue

def isError (i : Issue) : Bool := i.finding.severity = .error

/-- The issue with its place, unless no text holds what it is about. -/
def text (i : Issue) : String :=
  (if i.position.line = 0 then "" else i.position.text ++ ": ") ++
    i.finding.kind.title ++ ": " ++ i.finding.message ++
    match i.finding.suggestion with
    | none => ""
    | some s => "\n    → " ++ s

end Issue

/-- Issues by severity, each list in document order. -/
structure Report where
  errors : List Issue
  warnings : List Issue

namespace Report

def ofIssues (issues : List Issue) : Report :=
  ⟨issues.filter (·.isError), issues.filter (!·.isError)⟩

/-- Whether the document can be used. -/
def isValid (r : Report) : Bool := r.errors.isEmpty

/-- A numbered list of issues under a title. -/
def numbered (title : String) (issues : List Issue) : String :=
  if issues.isEmpty then ""
  else title ++ String.join (issues.zipIdx.map fun (i, n) => s!"  {n + 1}. {i.text}\n")

/-- The report as a text. -/
def text (r : Report) : String :=
  let errors := numbered s!"❌ {r.errors.length} validation errors:\n" r.errors
  let warnings := numbered s!"⚠️  {r.warnings.length} warnings:\n" r.warnings
  if errors.isEmpty || warnings.isEmpty then errors ++ warnings else errors ++ "\n" ++ warnings

end Report

end KeyRemap
