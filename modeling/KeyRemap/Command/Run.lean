import KeyRemap.Check
import KeyRemap.Command
import KeyRemap.Json.Read
import KeyRemap.Json.Write
import KeyRemap.Script.File
import KeyRemap.Settings.File
import KeyRemap.Settings.Json
import KeyRemap.Vocabulary.Json
import KeyRemap.Vocabulary.Search
import KeyRemap.Vocabulary.Standard

/-!
# Running commands

What each command does with the files it is given, and the texts it answers with.
-/
namespace KeyRemap

/-- A JSON text on lines of its own. -/
def Json.lines (j : Json) : String := j.pretty 0 ++ "\n"

namespace Command

open FileAccess

variable {m : Type → Type} [Monad m] [FileAccess m]

/-- What a part of a command gives, unless it fails. -/
abbrev Attempt (m : Type → Type) (α : Type) : Type := ExceptT Failure m α

/-- An outcome without a failure. -/
def answer (output : String) : Outcome := { output := output }

/-- Takes the result of an operation, or fails with a message. -/
def attempt {ε α : Type} (failure : ε → Failure) (action : m (Except ε α)) : Attempt m α := do
  match ← ExceptT.lift action with
  | .ok a => return a
  | .error e => throw (failure e)

/-- The settings in the file that was named, or those of the user. -/
def loadSettings (home file : Option Path) : Attempt m Settings :=
  attempt (fun e : SettingsError => .inaccessible ("Failed to load configuration: " ++ e.text)) <|
    match file with
    | some p => Settings.loadFrom p
    | none => Settings.load home

/-- The text of a script. -/
def readScript (s : Settings) (p : Path) : Attempt m String := do
  if ← ExceptT.lift (isThere p) then
    attempt (fun e : ScriptFileError => .inaccessible e.text) (ScriptFile.read p s.maxInputBytes)
  else
    throw (.inaccessible ("Script not found: " ++ p.text ++ "\n\n" ++ Identity.usageHint))

/-- The frame of a fault in a file. -/
def frame (p : Path) (source : String) (e : SyntaxError) : Failure :=
  .unreadable (e.toFault.frame source (some p.text))

/-- Fails with the frame of a fault. -/
def orFrame {α : Type} (p : Path) (source : String) : Except SyntaxError α → Attempt m α
  | .ok a => return a
  | .error e => throw (frame p source e)

/-- Lays out a script. -/
def runFormat (s : Settings) (p : Path) (mode : FormatMode) : Attempt m Outcome := do
  let source ← readScript s p
  let formatted := String.ofList
    (← orFrame p source ((s.layout.format? source.toList).mapError (·.toSyntaxError)))
  match mode, (formatted != source : Bool) with
  | .check, true => return {
      output := "✗ " ++ p.text ++ " is not formatted\n"
      failure := some (.rejected (p.text ++ " would be reformatted")) }
  | .check, false => return answer ("✓ " ++ p.text ++ " is formatted\n")
  | .write, true => do
    attempt (fun e : ScriptFileError => .inaccessible e.text) (ScriptFile.write p formatted)
    return answer ("✓ Formatted " ++ p.text ++ "\n")
  | .write, false => return answer ("✓ " ++ p.text ++ " already formatted\n")
  | .print, _ => return answer formatted

/-- An issue in the answer to a check. -/
def issueText (i : Issue) : String :=
  (if i.isError then "  ✗ " else "  ⚠ ") ++ i.position.text ++ " " ++ i.finding.kind.title ++ ": " ++
    i.finding.message ++ "\n" ++
    match i.finding.suggestion with
    | none => ""
    | some s => "    → " ++ s ++ "\n"

/-- The answer to a check of a script that can be read. -/
def checkText (p : Path) (report : Report) (summary : Document.Summary) : String :=
  let issues := report.errors ++ report.warnings
  (if report.isValid then
    "✓ " ++ p.text ++ s!": {summary.mappings} mappings, {summary.layers} layers, " ++
      s!"{summary.devices} devices\n"
  else "✗ " ++ p.text ++ ": validation failed\n") ++
  if issues.isEmpty then "" else "\nIssues:\n" ++ String.join (issues.map issueText)

/-- Why a check fails, if it does. -/
def checkFailure? (report : Report) (strict : Bool) : Option Failure :=
  if !report.isValid then some (.rejected s!"{report.errors.length} validation errors")
  else if strict && !report.warnings.isEmpty then
    some (.rejected "Warnings found in strict mode")
  else none

/-- Checks a script. -/
def runCheck (s : Settings) (p : Path) (json strict : Bool) : Attempt m Outcome := do
  let source ← readScript s p
  let result := Check.ofSource .standard s.maxInputBytes source
  match result with
  | .unreadable e =>
    if json then return {
      output := result.toJson.lines, failure := some (.unreadable (p.text ++ ":" ++ e.text)) }
    else throw (frame p source e)
  | .judged report summary => return {
      output := if json then result.toJson.lines else checkText p report summary
      failure := checkFailure? report strict }

/-- A mapping on a line of its own, behind an indentation. -/
def mappingLine (indent : String) (e : Entry) : String :=
  indent ++ String.ofList (Script.mappingText e.mapping) ++ "\n"

def layerText (l : LayerBlock) : String :=
  "  layer(\"" ++ l.name ++ "\")\n" ++ String.join (l.entries.map (mappingLine "    "))

def deviceText (b : DeviceBlock) : String :=
  "device(\"" ++ b.pattern ++ "\")\n" ++ String.join (b.entries.map (mappingLine "  ")) ++
    String.join (b.layers.map layerText)

/-- The device blocks that apply to a device. -/
def deviceAnswer (d : Document) (device : String) (json : Bool) : String :=
  let blocks := d.devicesMatching device
  if json then
    (Json.object [("device", .string device), ("blocks", .array (blocks.map (·.toJson)))]).lines
  else if blocks.isEmpty then "No device block applies to \"" ++ device ++ "\"\n"
  else String.join (blocks.map deviceText)

/-- The counts and names of a document. -/
def overviewText (p : Path) (d : Document) : String :=
  let names := d.layerNames
  let device (b : DeviceBlock) : String :=
    "    \"" ++ b.pattern ++ s!"\": {b.entries.length} mappings, {b.layers.length} layers\n"
  "Script: " ++ p.text ++ "\n" ++
  s!"  Mappings: {d.summary.mappings}\n  Global mappings: {d.entries.length}\n" ++
  "  Layers: " ++ (if names.isEmpty then "(none)" else ", ".intercalate names) ++ "\n" ++
  if d.devices.isEmpty then "  Devices: (none)\n"
  else "  Devices:\n" ++ String.join (d.devices.map device)

def overviewJson (d : Document) : Json := .object [
  ("summary", d.summary.toJson), ("has_global_mappings", .bool d.hasGlobalMappings),
  ("device_patterns", .strings d.devicePatterns), ("layers", .strings d.layerNames),
  ("document", d.toJson)]

/-- Shows what a script says. -/
def runInspect (s : Settings) (p : Path) (device : Option String) (json : Bool) :
    Attempt m Outcome := do
  let source ← readScript s p
  let d ← orFrame p source (Script.read s.maxInputBytes source)
  match device with
  | some device => return answer (deviceAnswer d device json)
  | none => return answer (if json then (overviewJson d).lines else overviewText p d)

/-- Writes a document as a script. -/
def runRender (s : Settings) (input : Path) (output : Option Path) (validate : Bool) :
    Attempt m Outcome := do
  let text ← attempt (fun e : ScriptFileError => .inaccessible e.text)
    (ScriptFile.read input s.maxInputBytes)
  match (Json.parse? text.toList).bind Document.ofJson? with
  | none => throw (.inaccessible ("Failed to parse document JSON " ++ input.text))
  | some d =>
    let report := Report.ofIssues (d.issues .standard)
    if validate && !report.isValid then return {
      notes := report.text, failure := some (.rejected "Document has validation errors") }
    match output with
    | none => return answer (String.ofList (Script.write s.layout d))
    | some p =>
      attempt (fun e : ScriptFileError => .inaccessible e.text) (ScriptFile.save p s.layout d)
      return answer ("✓ Wrote " ++ p.text ++ "\n")

/-- A text with spaces behind it, up to a width. -/
def padded (width : Nat) (text : String) : String :=
  text ++ String.ofList (Text.spaces (width - text.length))

def keyLine (k : Key) : String :=
  padded 20 k.code ++ " " ++ padded 24 k.name ++ " [" ++ k.category ++ "]" ++
    (if k.aliases.isEmpty then "" else " aliases: " ++ ", ".intercalate k.aliases) ++ "\n"

/-- Searches the names of keys. -/
def runKeys (v : Vocabulary) (query category : Option String) (json : Bool) : Outcome :=
  let query := query.getD ""
  let categories := v.categories.map (·.id)
  match category.filter (!categories.contains ·) with
  | some unknown => {
      failure := some (.rejected ("Unknown category '" ++ unknown ++ "'. Known categories: " ++
        ", ".intercalate categories)) }
  | none =>
    let keys := (v.search query).filter fun k => category.all (k.category = ·)
    if json then
      answer (Json.object [("count", .int keys.length), ("keys", .array (keys.map Key.toJson))]).lines
    else if keys.isEmpty then
      let near := v.suggest query
      answer ("No keys match '" ++ query ++ "'" ++
        (if near.isEmpty then "" else ". Did you mean: " ++ ", ".intercalate near ++ "?") ++ "\n")
    else answer (String.join (keys.map keyLine) ++ s!"\n{keys.length} keys\n")

/-- The settings file that was named, or that of the user. -/
def settingsPath (home file : Option Path) : Attempt m Path :=
  match file, home with
  | some p, _ => return p
  | none, some home => return Settings.defaultPath home
  | none, none =>
    throw (.inaccessible ("Failed to locate config file: " ++ SettingsError.noHome.text))

/-- Shows the settings. -/
def runShow (home file : Option Path) (json : Bool) : Attempt m Outcome := do
  let s ← loadSettings home file
  if json then return answer s.toJson.lines
  let p ← settingsPath home file
  return answer ("# " ++ Identity.displayName ++ " configuration (" ++ p.text ++ ")\n" ++
    String.ofList s.toml)

/-- Changes the settings in their file, which need not be there yet. -/
def runChange (home file : Option Path) (change : SettingsChange) : Attempt m Outcome := do
  if change.isEmpty then
    throw (.rejected ("At least one configuration option must be specified: --indent-width, " ++
      "--max-line-length, --collapse-blank-lines, --keep-comments-in-place, " ++
      "--debounce-ms or --max-input-bytes"))
  let p ← settingsPath home file
  let before ← if ← ExceptT.lift (isThere p) then loadSettings home (some p) else pure {}
  let s := change.apply before
  if let some fault := s.fault? then
    throw (.rejected ("Invalid configuration: " ++ fault.text))
  if let some parent := p.parent? then
    attempt (fun e : FileError => .inaccessible
      ("Failed to create config directory " ++ parent.text ++ ": " ++ e.text))
      (ensureDirectories parent)
  attempt (fun e : SettingsError => .inaccessible ("Failed to save configuration: " ++ e.text))
    (s.saveTo p)
  return answer "Configuration updated successfully.\n"

/-- Does what a command asks for. -/
def attemptCommand (home file : Option Path) : Command → Attempt m Outcome
  | .format p mode => do runFormat (← loadSettings home file) p mode
  | .check p json strict => do runCheck (← loadSettings home file) p json strict
  | .inspect p device json => do runInspect (← loadSettings home file) p device json
  | .render input output validate => do
    runRender (← loadSettings home file) input output validate
  | .keys query category json => return runKeys .standard query category json
  | .showSettings json => runShow home file json
  | .locateSettings => do return answer ((← settingsPath home file).text ++ "\n")
  | .changeSettings change => runChange home file change

end Command

/-- Runs an invocation. `home` is the directory of the user for the settings of all programs. -/
def Invocation.run {m : Type → Type} [Monad m] [FileAccess m] (home : Option Path)
    (i : Invocation) : m Outcome := do
  match ← (Command.attemptCommand home i.settingsFile i.command : ExceptT Failure m Outcome).run with
  | .ok outcome => return outcome
  | .error f => return { failure := some f }

end KeyRemap
