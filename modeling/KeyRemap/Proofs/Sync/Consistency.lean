import KeyRemap.Proofs.Sync.Run

/-!
# The views stay consistent

The view that was edited last decides what the other one and the diagnostics are, unless a text edit
still waits to be read (`Engine.Consistent`). A pipeline that succeeds makes an engine consistent
whatever it was before; one that fails, and every other operation, keeps what it finds. So an engine
is consistent at all times (`consistent_run`).
-/
namespace KeyRemap

namespace Engine

/-- The state, the text, the document and the diagnostics of an engine fit together. -/
structure Consistent (g : Engine) : Prop where
  /-- No operation leaves the engine at work. -/
  settled : g.state = .idle ∨ ∃ e, g.state = .error e
  /-- A document that was edited last is what the text was written from, and can be read. -/
  written : g.authority = .document → g.deadline = none ∧
    g.text = String.ofList (Script.write g.settings.layout g.document) ∧
    ∃ d, Script.read g.settings.maxInputBytes g.text = .ok d
  /-- A text that was edited last and does not wait has been read. -/
  read : g.authority = .text → g.deadline = none →
    ∀ d, Script.read g.settings.maxInputBytes g.text = .ok d →
      g.document = d ∧ g.diagnostics = d.issues .standard
  unreadable : g.authority = .text → g.deadline = none →
    ∀ e, Script.read g.settings.maxInputBytes g.text = .error e → g.diagnostics = []
  /-- An error of the validation is the first issue of the document that is an error. -/
  invalid : ∀ i, g.state = .error (.validation i) →
    g.diagnostics = g.document.issues .standard ∧ g.diagnostics.find? (·.isError) = some i

variable {g : Engine}

namespace Consistent

/-- A state that blames no issue can replace any other. -/
theorem withState (h : g.Consistent) {state : SyncState}
    (hs : state = .idle ∨ ∃ e, state = .error (.parse e)) :
    { g with state := state }.Consistent where
  settled := hs.imp id fun ⟨e, he⟩ => ⟨.parse e, he⟩
  written := h.written
  read := h.read
  unreadable := h.unreadable
  invalid i hi := by
    obtain rfl | ⟨e, rfl⟩ := hs
    · cases hi
    · cases hi

theorem editText (h : g.Consistent) (now : Nat) (text : String) :
    (g.editText now text).1.Consistent where
  settled := h.settled
  written ha := by cases ha
  read _ hd := by cases hd
  unreadable _ hd := by cases hd
  invalid := h.invalid

end Consistent

/-- Reading a text that was edited last makes an engine consistent. -/
theorem Reading.consistent {r : Engine × List SyncEvent} (h : g.Reading r)
    (ha : g.authority = .text) : r.1.Consistent := by
  cases h with
  | @unreadable e h =>
    constructor
    case settled => exact .inr ⟨_, rfl⟩
    case written => simp [ha]
    case read => simp [h]
    case unreadable => simp
    case invalid => simp
  | @invalid d i h hi =>
    constructor
    case settled => exact .inr ⟨_, rfl⟩
    case written => simp [ha]
    case read => simp [h]
    case unreadable => simp [h]
    case invalid => simp [hi]
  | @valid d h hi =>
    constructor
    case settled => exact .inl rfl
    case written => simp [ha]
    case read => simp [h]
    case unreadable => simp [h]
    case invalid => simp

/-- A document that was written is consistent with its text. -/
theorem consistent_of_written {d : Document} (ha : g.authority = .document)
    (hd : g.deadline = none) (hs : g.state = .idle)
    (ht : g.text = String.ofList (Script.write g.settings.layout g.document))
    (hr : Script.read g.settings.maxInputBytes g.text = .ok d) : g.Consistent where
  settled := .inl hs
  written _ := ⟨hd, ht, d, hr⟩
  read h := by simp [ha] at h
  unreadable h := by simp [ha] at h
  invalid i h := by simp [hs] at h

/-- A document is written, or all but the state is as it was. -/
theorem Change.consistent {document : Document} {r : Engine × List SyncEvent}
    (h : g.Change document r) (hg : g.Consistent) : r.1.Consistent := by
  cases h with
  | @rolledBack e _ => exact hg.withState (.inr ⟨e, rfl⟩)
  | published hr => exact consistent_of_written rfl rfl rfl rfl hr

theorem Writing.consistent {r : (Engine × List SyncEvent) × Bool} (h : g.Writing r)
    (ha : g.authority = .document) (hg : g.Consistent) : r.1.1.Consistent := by
  cases h with
  | @unreadable e _ => exact hg.withState (.inr ⟨e, rfl⟩)
  | published hr => exact consistent_of_written ha (hg.written ha).1 rfl rfl hr

/-- Only a text edit waits. -/
theorem Consistent.authority_of_isDue (h : g.Consistent) {now : Nat} (hd : g.isDue now = true) :
    g.authority = .text := by
  cases ha : g.authority with
  | text => rfl
  | document => simp [isDue, (h.written ha).1] at hd

/-- No step makes a consistent engine inconsistent. -/
theorem Outcome.consistent {now : Nat} {a : SessionStep} {r : Engine × List SyncEvent}
    {answer : StepResult} (h : g.Outcome now a r answer) (hg : g.Consistent) :
    r.1.Consistent := by
  cases h with
  | editText text => exact hg.editText now text
  | advance | waited | rejected | nothingToClear | subscribe | unsubscribe => exact hg
  | polled hd hr => exact hr.consistent (hg.authority_of_isDue hd)
  | setDocument hr | edited _ hr => exact hr.consistent hg
  | cleared => exact hg.withState (.inl rfl)
  | forcedText ha hr => exact hr.consistent ha
  | forcedDocument ha hr => exact hr.consistent ha hg

end Engine

namespace Session

/-- Whatever the steps of a session, its engine keeps its settings and is consistent. -/
theorem consistent_run (settings : Settings) (text : String) (steps : List SessionStep) :
    ((start settings text).run steps).engine.settings = settings ∧
      ((start settings text).run steps).engine.Consistent := by
  have hstart : (start settings text).engine.Consistent :=
    (Engine.reading_readText _).consistent rfl
  exact ⟨by simp, run_induction (fun hr hg => hr.consistent hg) hstart steps⟩

end Session

end KeyRemap
