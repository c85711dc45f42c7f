import KeyRemap.Sync.Engine

/-!
# The worker

A worker owns an engine and takes commands from a queue. It takes what the queue holds in one
batch, of text edits in a row only the last, and polls the engine after each batch. It stops at a
command to shut down.
-/
namespace KeyRemap

inductive SyncCommand where
  | editText (text : String)
  | setDocument (document : Document)
  | edit (e : Edit)
  | clearError
  | forceSync
  | shutdown
deriving DecidableEq, Repr

namespace Engine

/-- Carries out a command. Shutting down is not the engine's business. -/
def execute (g : Engine) (now : Nat) : SyncCommand → Engine × List SyncEvent
  | .editText text => g.editText now text
  | .setDocument document => g.setDocument document
  | .edit e => (g.edit e).1
  | .clearError => g.clearError
  | .forceSync => g.forceSync
  | .shutdown => (g, [])

/-- Carries out commands one by one, with the events of all. Time may pass in between: the clock
gives the time for the command of an index. -/
def executeAll (g : Engine) (clock : Nat → Nat) : List SyncCommand → Engine × List SyncEvent
  | [] => (g, [])
  | c :: cs =>
    let (g, events) := g.execute (clock 0) c
    let (g, more) := g.executeAll (fun i => clock (i + 1)) cs
    (g, events ++ more)

end Engine

namespace SyncCommand

def isEditText : SyncCommand → Bool
  | .editText _ => true
  | _ => false

/-- The commands without the text edits that another one follows directly. -/
def coalesce : List SyncCommand → List SyncCommand
  | [] => []
  | [c] => [c]
  | c :: d :: cs =>
    if c.isEditText && d.isEditText then coalesce (d :: cs) else c :: coalesce (d :: cs)

/-- The commands before the first one to shut down. -/
def beforeShutdown (cs : List SyncCommand) : List SyncCommand := cs.takeWhile (· ≠ .shutdown)

end SyncCommand

/-- What the queue held when the worker looked. -/
structure Batch where
  commands : List SyncCommand
  /-- The time for each command that is carried out, and behind the last one for the poll. -/
  clock : Nat → Nat

/-- The commands of the batch that are carried out. -/
def Batch.executed (b : Batch) : List SyncCommand :=
  SyncCommand.beforeShutdown (SyncCommand.coalesce b.commands)

namespace Engine

/-- Carries out a batch and polls. -/
def executeBatch (g : Engine) (b : Batch) : Engine × List SyncEvent :=
  let (g, events) := g.executeAll b.clock b.executed
  let (g, more) := (g.poll (b.clock b.executed.length)).1
  (g, events ++ more)

/-- Carries out batches up to the one that shuts the worker down. -/
def work (g : Engine) : List Batch → Engine × List SyncEvent
  | [] => (g, [])
  | b :: bs =>
    let (g, events) := g.executeBatch b
    if b.commands.contains .shutdown then (g, events)
    else
      let (g, more) := g.work bs
      (g, events ++ more)

end Engine

/-- What a worker shows of its engine. -/
structure Snapshot where
  state : SyncState
  document : Document
  text : String
  diagnostics : List Issue
  authority : Authority
  revision : Nat
  /-- Whether a text edit waits. -/
  pending : Bool
deriving DecidableEq, Repr

def Engine.snapshot (g : Engine) : Snapshot where
  state := g.state
  document := g.document
  text := g.text
  diagnostics := g.diagnostics
  authority := g.authority
  revision := g.revision
  pending := g.deadline.isSome

namespace SyncEvent

/-- Whether the event ends the wait for a publication of the document. -/
def endsWait : SyncEvent → Bool
  | .documentPublished .. | .failed _ => true
  | _ => false

end SyncEvent

/-- A worker that is sent commands at once and shut down, after a document is published if it is to
wait for one. -/
def Engine.workThrough (g : Engine) (commands : List SyncCommand) (wait : Bool) :
    Engine × List SyncEvent :=
  let held (now : Nat) (commands : List SyncCommand) : Batch := ⟨commands, fun _ => now⟩
  let (after, events) := g.work [held 0 commands]
  match after.deadline with
  | some deadline =>
    if wait && !events.any (·.endsWait) then
      g.work [held 0 commands, held deadline [], held deadline [.shutdown]]
    else g.work [held 0 commands, held 0 [.shutdown]]
  | none => g.work [held 0 commands, held 0 [.shutdown]]

end KeyRemap
