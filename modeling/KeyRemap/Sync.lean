import KeyRemap.Edit
import KeyRemap.Issue
import KeyRemap.Script.Error

/-!
# Keeping text and document in step

The vocabulary of the engine that owns a script in two views, a text and a document: its states,
and the events that observers receive.
-/
namespace KeyRemap

/-- Why a view could not be brought up to date. -/
inductive SyncError where
  | parse (e : SyntaxError)
  /-- The text was read, and this is its first issue that is an error. -/
  | validation (i : Issue)
deriving DecidableEq, Repr

namespace SyncError

def position : SyncError → Position
  | .parse e => e.position
  | .validation i => i.position

/-- The error that this one reports. -/
def cause : SyncError → String
  | .parse e => e.text
  | .validation i => i.text

def text : SyncError → String
  | .parse e => "Parse error: " ++ e.text
  | .validation i => "Validation error: " ++ i.text

end SyncError

inductive SyncState where
  | idle | parsing | generating | syncing
  | error (e : SyncError)
deriving DecidableEq, Repr

namespace SyncState

def isError : SyncState → Bool
  | .error _ => true
  | _ => false

/-- The error of an error state. -/
def error? : SyncState → Option SyncError
  | .error e => some e
  | _ => none

def tag : SyncState → String
  | .idle => "idle"
  | .parsing => "parsing"
  | .generating => "generating"
  | .syncing => "syncing"
  | .error _ => "error"

end SyncState

/-- The view that was edited last. -/
inductive Authority where
  | text | document
deriving DecidableEq, Repr

def Authority.tag : Authority → String
  | .text => "text"
  | .document => "structure"

inductive SyncEvent where
  | stateChanged (state : SyncState)
  | documentPublished (revision : Nat) (document : Document)
  | textPublished (revision : Nat) (text : String)
  | failed (e : SyncError)
  | editRejected (reason : EditError)
deriving DecidableEq, Repr

end KeyRemap
