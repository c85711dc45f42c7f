import KeyRemap.Script.Read
import KeyRemap.Script.Write
import KeyRemap.Settings
import KeyRemap.Sync
import KeyRemap.Validation
import KeyRemap.Vocabulary.Standard

/-!
# The engine

The engine holds the text and the document of one script. A text edit waits for a quiet time and is
then read; a change of the document is written at once, and taken back if what was written cannot
be read. Each operation gives the engine after it and the events it sends, in order.
-/
namespace KeyRemap

structure Engine where
  settings : Settings
  state : SyncState := .idle
  document : Document := {}
  text : String
  /-- The issues of the text that was read last. -/
  diagnostics : List Issue := []
  authority : Authority := .text
  /-- The number of publications. -/
  revision : Nat := 0
  /-- When the text edit that waits is due. -/
  deadline : Option Nat := none
deriving DecidableEq, Repr

namespace Engine

/-- The events of an engine that goes into an error state. -/
def failure (e : SyncError) : List SyncEvent := [.stateChanged (.error e), .failed e]

/-- Reads the text and publishes the document. -/
def readText (g : Engine) : Engine × List SyncEvent :=
  match Script.read g.settings.maxInputBytes g.text with
  | .error e =>
    ({ g with state := .error (.parse e), diagnostics := [] },
      .stateChanged .parsing :: failure (.parse e))
  | .ok document =>
    let issues := document.issues .standard
    let revision := g.revision + 1
    let published := { g with document := document, diagnostics := issues, revision := revision }
    let events := [.stateChanged .parsing, .stateChanged .syncing,
      .documentPublished revision document]
    match issues.find? (·.isError) with
    | some i =>
      ({ published with state := .error (.validation i) }, events ++ failure (.validation i))
    | none => ({ published with state := .idle }, events ++ [.stateChanged .idle])

/-- Writes the document and publishes the text. The answer is whether the text can be read. -/
def writeDocument (g : Engine) : (Engine × List SyncEvent) × Bool :=
  let text := String.ofList (Script.write g.settings.layout g.document)
  match Script.read g.settings.maxInputBytes text with
  | .error e =>
    (({ g with state := .error (.parse e) }, .stateChanged .generating :: failure (.parse e)),
      false)
  | .ok _ =>
    let revision := g.revision + 1
    (({ g with text := text, diagnostics := [], revision := revision, state := .idle },
      [.stateChanged .generating, .stateChanged .syncing, .textPublished revision text,
        .stateChanged .idle]), true)

/-- An engine that has read its first text. -/
def create (settings : Settings) (text : String) : Engine :=
  (readText { settings := settings, text := text }).1

/-- Takes a text edit, to be read after the quiet time. -/
def editText (g : Engine) (now : Nat) (text : String) : Engine × List SyncEvent :=
  ({ g with text := text, authority := .text, deadline := some (now + g.settings.debounce) }, [])

/-- Takes a document, and a text edit that waits is dropped. If the text that was written cannot be
read, the document, the authority and the deadline are put back. -/
def setDocument (g : Engine) (document : Document) : Engine × List SyncEvent :=
  let changed := { g with document := document, authority := .document, deadline := none }
  match changed.writeDocument with
  | (published, true) => published
  | ((failed, events), false) =>
    ({ failed with document := g.document, authority := g.authority, deadline := g.deadline },
      events)

/-- Makes an edit of the document, or tells why it cannot be made. -/
def edit (g : Engine) (e : Edit) : (Engine × List SyncEvent) × Except EditError Unit :=
  match e.apply g.document with
  | .error reason => ((g, [.editRejected reason]), .error reason)
  | .ok document => (g.setDocument document, .ok ())

/-- Leaves an error state. -/
def clearError (g : Engine) : Engine × List SyncEvent :=
  if g.state.isError then ({ g with state := .idle }, [.stateChanged .idle]) else (g, [])

/-- Brings the view that was not edited last up to date, without waiting. -/
def forceSync (g : Engine) : Engine × List SyncEvent :=
  match g.authority with
  | .text => { g with deadline := none }.readText
  | .document => g.writeDocument.1

/-- Whether a text edit is due. -/
def isDue (g : Engine) (now : Nat) : Bool :=
  match g.deadline with
  | some deadline => deadline ≤ now
  | none => false

theorem isDue_iff {g : Engine} {now : Nat} :
    g.isDue now = true ↔ ∃ due, g.deadline = some due ∧ due ≤ now := by
  rw [isDue]
  cases g.deadline <;> simp

/-- Reads the text if an edit of it is due. The answer is whether it was. -/
def poll (g : Engine) (now : Nat) : (Engine × List SyncEvent) × Bool :=
  if g.isDue now then ({ g with deadline := none }.readText, true) else ((g, []), false)

/-- The time left until the text edit that waits is due. -/
def timeLeft (g : Engine) (now : Nat) : Option Nat := g.deadline.map (· - now)

end Engine

end KeyRemap
