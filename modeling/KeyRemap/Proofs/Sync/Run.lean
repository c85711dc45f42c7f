import KeyRemap.Sync.Session

/-!
# Runs of a session

What the operations of an engine can come to, one case for each way they end, and what a session is
after a sequence of steps. What every step keeps holds at the end of a run (`run_induction`).
-/
namespace KeyRemap

namespace Engine

variable {g : Engine}

/-- What reading the text comes to: the engine after it and the events it sends. -/
inductive Reading (g : Engine) : Engine × List SyncEvent → Prop
  | unreadable {e : SyntaxError} (h : Script.read g.settings.maxInputBytes g.text = .error e) :
      Reading g ({ g with state := .error (.parse e), diagnostics := [] },
        [.stateChanged .parsing, .stateChanged (.error (.parse e)), .failed (.parse e)])
  | invalid {d : Document} {i : Issue}
      (h : Script.read g.settings.maxInputBytes g.text = .ok d)
      (hi : (d.issues .standard).find? (·.isError) = some i) :
      Reading g ({ g with
        state := .error (.validation i), document := d, diagnostics := d.issues .standard,
        revision := g.revision + 1 },
        [.stateChanged .parsing, .stateChanged .syncing, .documentPublished (g.revision + 1) d,
          .stateChanged (.error (.validation i)), .failed (.validation i)])
  | valid {d : Document} (h : Script.read g.settings.maxInputBytes g.text = .ok d)
      (hi : (d.issues .standard).find? (·.isError) = none) :
      Reading g ({ g with
        state := .idle, document := d, diagnostics := d.issues .standard,
        revision := g.revision + 1 },
        [.stateChanged .parsing, .stateChanged .syncing, .documentPublished (g.revision + 1) d,
          .stateChanged .idle])

theorem Reading.settings_eq {r : Engine × List SyncEvent} (h : g.Reading r) :
    r.1.settings = g.settings := by
  cases h <;> rfl

theorem reading_readText (g : Engine) : g.Reading g.readText := by
  unfold readText
  split
  · exact .unreadable ‹_›
  · rename_i d h
    dsimp only
    split
    · exact .invalid h ‹_›
    · exact .valid h ‹_›

/-- What writing the document comes to. -/
inductive Writing (g : Engine) : (Engine × List SyncEvent) × Bool → Prop
  | unreadable {e : SyntaxError}
      (h : Script.read g.settings.maxInputBytes
        (String.ofList (Script.write g.settings.layout g.document)) = .error e) :
      Writing g (({ g with state := .error (.parse e) },
        [.stateChanged .generating, .stateChanged (.error (.parse e)), .failed (.parse e)]), false)
  | published {d : Document}
      (h : Script.read g.settings.maxInputBytes
        (String.ofList (Script.write g.settings.layout g.document)) = .ok d) :
      Writing g (({ g with
        state := .idle, text := String.ofList (Script.write g.settings.layout g.document),
        diagnostics := [], revision := g.revision + 1 },
        [.stateChanged .generating, .stateChanged .syncing,
          .textPublished (g.revision + 1)
            (String.ofList (Script.write g.settings.layout g.document)),
          .stateChanged .idle]), true)

theorem Writing.settings_eq {r : (Engine × List SyncEvent) × Bool} (h : g.Writing r) :
    r.1.1.settings = g.settings := by
  cases h <;> rfl

theorem writing_writeDocument (g : Engine) : g.Writing g.writeDocument := by
  unfold writeDocument
  dsimp only
  split
  · exact .unreadable ‹_›
  · exact .published ‹_›

/-- What taking a document comes to. -/
inductive Change (g : Engine) (document : Document) : Engine × List SyncEvent → Prop
  | rolledBack {e : SyntaxError}
      (h : Script.read g.settings.maxInputBytes
        (String.ofList (Script.write g.settings.layout document)) = .error e) :
      Change g document ({ g with state := .error (.parse e) },
        [.stateChanged .generating, .stateChanged (.error (.parse e)), .failed (.parse e)])
  | published {d : Document}
      (h : Script.read g.settings.maxInputBytes
        (String.ofList (Script.write g.settings.layout document)) = .ok d) :
      Change g document ({ g with
        state := .idle, document := document, authority := .document, deadline := none,
        text := String.ofList (Script.write g.settings.layout document), diagnostics := [],
        revision := g.revision + 1 },
        [.stateChanged .generating, .stateChanged .syncing,
          .textPublished (g.revision + 1)
            (String.ofList (Script.write g.settings.layout document)),
          .stateChanged .idle])

theorem Change.settings_eq {document : Document} {r : Engine × List SyncEvent}
    (h : g.Change document r) : r.1.settings = g.settings := by
  cases h <;> rfl

/-- A document is published, or what it took the place of is put back, and then no more than the
state has changed. -/
theorem change_setDocument (g : Engine) (document : Document) :
    g.Change document (g.setDocument document) := by
  have h := writing_writeDocument
    { g with document := document, authority := .document, deadline := none }
  unfold setDocument
  dsimp only
  split
  · rename_i published hw
    rw [hw] at h
    cases h
    exact .published ‹_›
  · rename_i failed events hw
    rw [hw] at h
    cases h
    exact .rolledBack ‹_›

/-- What a step comes to at a time: the engine after it, the events it sends and its answer. -/
inductive Outcome (g : Engine) (now : Nat) :
    SessionStep → Engine × List SyncEvent → StepResult → Prop
  | editText (text : String) :
      Outcome g now (.editText text) (g.editText now text) .nothing
  | advance (time : Nat) : Outcome g now (.advance time) (g, []) .nothing
  | waited (h : g.isDue now = false) : Outcome g now .poll (g, []) (.polled false)
  | polled {r : Engine × List SyncEvent} (h : g.isDue now = true)
      (hr : Reading { g with deadline := none } r) : Outcome g now .poll r (.polled true)
  | setDocument {document : Document} {r : Engine × List SyncEvent} (hr : g.Change document r) :
      Outcome g now (.setDocument document) r .nothing
  | rejected {e : Edit} {reason : EditError} (h : e.apply g.document = .error reason) :
      Outcome g now (.edit e) (g, [.editRejected reason]) (.edited (.error reason))
  | edited {e : Edit} {document : Document} {r : Engine × List SyncEvent}
      (h : e.apply g.document = .ok document) (hr : g.Change document r) :
      Outcome g now (.edit e) r (.edited (.ok ()))
  | cleared (h : g.state.isError = true) :
      Outcome g now .clearError ({ g with state := .idle }, [.stateChanged .idle]) .nothing
  | nothingToClear (h : g.state.isError = false) : Outcome g now .clearError (g, []) .nothing
  | forcedText {r : Engine × List SyncEvent} (h : g.authority = .text)
      (hr : Reading { g with deadline := none } r) : Outcome g now .forceSync r .nothing
  | forcedDocument {r : Engine × List SyncEvent} {ok : Bool}
      (h : g.authority = .document) (hr : g.Writing (r, ok)) :
      Outcome g now .forceSync r .nothing
  | subscribe : Outcome g now .subscribe (g, []) .nothing
  | unsubscribe : Outcome g now .unsubscribe (g, []) .nothing

theorem Outcome.settings_eq {now : Nat} {a : SessionStep} {r : Engine × List SyncEvent}
    {answer : StepResult} (h : g.Outcome now a r answer) : r.1.settings = g.settings := by
  cases h with
  | polled _ hr | forcedText _ hr => exact hr.settings_eq
  | setDocument hr | edited _ hr => exact hr.settings_eq
  | forcedDocument _ hr => exact hr.settings_eq
  | _ => rfl

end Engine

namespace Session

/-- Every step comes to one of the outcomes, and sends its events to the observer. -/
theorem outcome_step (s : Session) (a : SessionStep) :
    ∃ r, s.engine.Outcome s.now a r (s.step a).2.1 ∧ (s.step a).1.engine = r.1 ∧
      (s.step a).2.2 = if s.observed then r.2 else [] := by
  cases a with
  | editText text => exact ⟨_, .editText text, rfl, rfl⟩
  | advance time => exact ⟨_, .advance time, rfl, by simp [step]⟩
  | poll =>
    refine ⟨(s.engine.poll s.now).1, ?_, rfl, rfl⟩
    change s.engine.Outcome s.now .poll (s.engine.poll s.now).1 (.polled (s.engine.poll s.now).2)
    unfold Engine.poll
    split
    · exact .polled ‹_› (Engine.reading_readText _)
    · exact .waited (Bool.not_eq_true _ ▸ ‹_›)
  | setDocument document =>
    exact ⟨_, .setDocument (Engine.change_setDocument s.engine document), rfl, rfl⟩
  | edit e =>
    refine ⟨(s.engine.edit e).1, ?_, rfl, rfl⟩
    change s.engine.Outcome s.now (.edit e) (s.engine.edit e).1 (.edited (s.engine.edit e).2)
    unfold Engine.edit
    split
    · exact .rejected ‹_›
    · exact .edited ‹_› (Engine.change_setDocument s.engine _)
  | clearError =>
    refine ⟨s.engine.clearError, ?_, rfl, rfl⟩
    unfold Engine.clearError
    split
    · exact .cleared ‹_›
    · exact .nothingToClear (Bool.not_eq_true _ ▸ ‹_›)
  | forceSync =>
    refine ⟨s.engine.forceSync, ?_, rfl, rfl⟩
    unfold Engine.forceSync
    split
    · exact .forcedText ‹_› (Engine.reading_readText _)
    · exact .forcedDocument ‹_› (Engine.writing_writeDocument s.engine)
  | subscribe => exact ⟨_, .subscribe, rfl, by simp [step]⟩
  | unsubscribe => exact ⟨_, .unsubscribe, rfl, by simp [step]⟩

/-- The session after a sequence of steps. -/
def run (s : Session) : List SessionStep → Session
  | [] => s
  | a :: as => run (s.step a).1 as

@[simp] theorem run_append (s : Session) (as bs : List SessionStep) :
    s.run (as ++ bs) = (s.run as).run bs := by
  induction as generalizing s with
  | nil => rfl
  | cons a as ih => exact ih (s.step a).1

/-- What holds of an engine, and is kept by the outcome of every step of a kind, holds at the end of
every run of such steps. -/
theorem run_induction_of {Q : SessionStep → Prop} {P : Engine → Prop}
    (hstep : ∀ {g now a r answer}, Engine.Outcome g now a r answer → Q a → P g → P r.1)
    {s : Session} (h : P s.engine) {as : List SessionStep} (ha : ∀ a ∈ as, Q a) :
    P (s.run as).engine := by
  induction as generalizing s with
  | nil => exact h
  | cons a as ih =>
    obtain ⟨ha, has⟩ := List.forall_mem_cons.1 ha
    obtain ⟨r, hr, he, -⟩ := s.outcome_step a
    exact ih (he ▸ hstep hr ha h) has

/-- What holds of an engine and is kept by every outcome holds at the end of every run. -/
theorem run_induction {P : Engine → Prop}
    (hstep : ∀ {g now a r answer}, Engine.Outcome g now a r answer → P g → P r.1) {s : Session}
    (h : P s.engine) (as : List SessionStep) : P (s.run as).engine :=
  run_induction_of (Q := fun _ => True) (fun hr _ hg => hstep hr hg) h fun _ _ => trivial

@[simp] theorem settings_run (s : Session) (as : List SessionStep) :
    (s.run as).engine.settings = s.engine.settings :=
  run_induction (P := fun g => g.settings = s.engine.settings)
    (fun hr h => hr.settings_eq.trans h) rfl as

@[simp] theorem settings_start (settings : Settings) (text : String) :
    (start settings text).engine.settings = settings :=
  (Engine.reading_readText _).settings_eq

end Session

end KeyRemap
