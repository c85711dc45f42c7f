import KeyRemap.Sync.Engine

/-!
# Sessions

An engine under a clock that moves only when told to, with an observer that may come and go. An
observer receives the events that are sent while it is there.
-/
namespace KeyRemap

structure Session where
  engine : Engine
  now : Nat := 0
  /-- Whether there is an observer. -/
  observed : Bool := true

inductive SessionStep where
  | editText (text : String)
  | advance (time : Nat)
  | poll
  | setDocument (document : Document)
  | edit (e : Edit)
  | clearError
  | forceSync
  | subscribe
  | unsubscribe

/-- What a step answers. -/
inductive StepResult where
  | nothing
  | polled (ran : Bool)
  | edited (outcome : Except EditError Unit)

namespace Session

/-- A session that begins with a text. -/
def start (settings : Settings) (text : String) : Session := { engine := .create settings text }

/-- The session after a step, its answer, and the events that the observer received. -/
def step (s : Session) (action : SessionStep) : Session × StepResult × List SyncEvent :=
  let become (outcome : Engine × List SyncEvent) (result : StepResult) :
      Session × StepResult × List SyncEvent :=
    ({ s with engine := outcome.1 }, result, if s.observed then outcome.2 else [])
  match action with
  | .editText text => become (s.engine.editText s.now text) .nothing
  | .advance time => ({ s with now := s.now + time }, .nothing, [])
  | .poll =>
    let (outcome, ran) := s.engine.poll s.now
    become outcome (.polled ran)
  | .setDocument document => become (s.engine.setDocument document) .nothing
  | .edit e =>
    let (outcome, result) := s.engine.edit e
    become outcome (.edited result)
  | .clearError => become s.engine.clearError .nothing
  | .forceSync => become s.engine.forceSync .nothing
  | .subscribe => ({ s with observed := true }, .nothing, [])
  | .unsubscribe => ({ s with observed := false }, .nothing, [])

end Session

end KeyRemap
