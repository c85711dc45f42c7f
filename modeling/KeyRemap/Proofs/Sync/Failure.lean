import KeyRemap.Proofs.Sync.Events
import KeyRemap.Proofs.Sync.Rollback

/-!
# What a failure leaves as it was

An operation fails when a text cannot be read, the one that a document was written as or the one
that was edited, or when an edit cannot be made. In each case it leaves the content of the engine as
it was, in every state that an engine can be in (`Turn.Atomic`, `Session.atomic_of_mem_turns`).
-/
namespace KeyRemap

open Engine

namespace Turn

/-- The turn gives the engine a document: as a whole, or as what an edit makes of the one it has. -/
def Brings (t : Turn) (d : Document) : Prop :=
  t.action = .setDocument d ∨ ∃ e, t.action = .edit e ∧ e.apply t.before.document = .ok d

/-- An observer is told that a text cannot be read. -/
def Fails (t : Turn) (e : SyntaxError) : Prop := .failed (.parse e) ∈ t.events

/-- A turn that fails leaves the content of the engine as it was. -/
structure Atomic (t : Turn) : Prop where
  /-- A document is refused just when its text cannot be read. Only the state is another then. -/
  document : ∀ d, t.Brings d → ∀ e,
    (t.Fails e ↔
      Script.read t.before.settings.maxInputBytes (t.before.textFor d) = .error e) ∧
    (t.Fails e → t.after = { t.before with state := .error (.parse e) })
  /-- An edit that cannot be made changes nothing at all. -/
  edit : ∀ reason, t.answer = .edited (.error reason) →
    t.after = t.before ∧ t.events = [.editRejected reason]
  /-- A text that cannot be read publishes nothing and stays to be edited. -/
  text : t.before.ReadsText t.action t.answer → ∀ e,
    (t.Fails e ↔ Script.read t.before.settings.maxInputBytes t.before.text = .error e) ∧
    (t.Fails e → t.after.state = .error (.parse e) ∧ t.after.document = t.before.document ∧
      t.after.text = t.before.text ∧ t.after.authority = t.before.authority ∧
      t.after.revision = t.before.revision)

/-- A turn that brings no document, refuses no edit and reads no text cannot fail. -/
theorem atomic_of_not {t : Turn} (hb : ∀ d, ¬ t.Brings d)
    (he : ∀ reason, t.answer ≠ .edited (.error reason))
    (hr : ¬ t.before.ReadsText t.action t.answer) : t.Atomic where
  document d hd := absurd hd (hb d)
  edit reason ha := absurd ha (he reason)
  text ht := absurd ht hr

end Turn

namespace Engine

variable {g : Engine} {d : Document} {r : Engine × List SyncEvent} {a : SessionStep}
  {answer : StepResult}

theorem Change.fails_iff (h : g.Change d r) (e : SyntaxError) :
    (Turn.Fails ⟨a, answer, g, r.1, r.2⟩ e ↔
      Script.read g.settings.maxInputBytes (g.textFor d) = .error e) ∧
    (Turn.Fails ⟨a, answer, g, r.1, r.2⟩ e → r.1 = { g with state := .error (.parse e) }) := by
  cases h with
  | @rolledBack e' h =>
    rw [← textFor] at h
    have hfails : Turn.Fails ⟨a, answer, g, { g with state := .error (.parse e') },
        [.stateChanged .generating, .stateChanged (.error (.parse e')), .failed (.parse e')]⟩ e ↔
        e = e' := by simp [Turn.Fails]
    rw [hfails, h]
    exact ⟨by simp [eq_comm], fun he => by rw [he]⟩
  | published h =>
    rw [← textFor] at h
    simp [Turn.Fails, h]

theorem Reading.fails_iff (h : Reading { g with deadline := none } r) (e : SyntaxError) :
    (Turn.Fails ⟨a, answer, g, r.1, r.2⟩ e ↔
      Script.read g.settings.maxInputBytes g.text = .error e) ∧
    (Turn.Fails ⟨a, answer, g, r.1, r.2⟩ e → r.1.state = .error (.parse e) ∧
      r.1.document = g.document ∧ r.1.text = g.text ∧ r.1.authority = g.authority ∧
      r.1.revision = g.revision) := by
  cases h with
  | @unreadable e' h =>
    replace h : Script.read g.settings.maxInputBytes g.text = .error e' := h
    simp [Turn.Fails, h, eq_comm]
  | invalid h | valid h =>
    replace h : Script.read g.settings.maxInputBytes g.text = .ok _ := h
    simp [Turn.Fails, h]

/-- A turn that changes the document fails as the change does. -/
theorem Change.atomic (h : g.Change d r)
    (hb : ∀ d', Turn.Brings ⟨a, answer, g, r.1, r.2⟩ d' → d' = d)
    (he : ∀ reason, answer ≠ .edited (.error reason)) (hr : ¬ g.ReadsText a answer) :
    Turn.Atomic ⟨a, answer, g, r.1, r.2⟩ where
  document d' hd e := hb d' hd ▸ h.fails_iff e
  edit reason ha := absurd ha (he reason)
  text ht := absurd ht hr

/-- A turn that reads the text fails as the reading does. -/
theorem Reading.atomic (h : Reading { g with deadline := none } r)
    (hr : g.ReadsText a answer) : Turn.Atomic ⟨a, answer, g, r.1, r.2⟩ where
  document d hd := by cases hr <;> simp [Turn.Brings] at hd
  edit reason ha := by cases hr <;> cases ha
  text _ e := h.fails_iff e

theorem Outcome.atomic {now : Nat} (h : g.Outcome now a r answer) :
    Turn.Atomic ⟨a, answer, g, r.1, r.2⟩ := by
  cases h with
  | polled _ hr => exact hr.atomic .poll
  | forcedText ha hr => exact hr.atomic (.forceSync ha)
  | setDocument hr =>
    exact hr.atomic (by simp [Turn.Brings, eq_comm]) nofun nofun
  | edited hd hr =>
    refine hr.atomic (fun d' hb => ?_) nofun nofun
    obtain hb | ⟨e, he, hd'⟩ := hb
    · cases hb
    · cases he
      exact Except.ok.inj (hd'.symm.trans hd)
  | rejected hd =>
    constructor
    case document =>
      rintro d (hb | ⟨e, he, hd'⟩)
      · cases hb
      · cases he
        cases hd'.symm.trans hd
    case edit =>
      intro reason ha
      cases ha
      exact ⟨rfl, rfl⟩
    case text => exact nofun
  | forcedDocument ha =>
    refine Turn.atomic_of_not (by simp [Turn.Brings]) nofun fun hr => ?_
    cases hr with
    | forceSync ht => cases ha.symm.trans ht
  | editText | advance | waited | cleared | nothingToClear | subscribe | unsubscribe =>
    exact Turn.atomic_of_not (by simp [Turn.Brings]) nofun nofun

end Engine

namespace Session

/-- Whatever the steps of a session, one that fails leaves the content of the engine as it was. -/
theorem atomic_of_mem_turns (settings : Settings) (text : String) {steps : List SessionStep}
    {t : Turn} (h : t ∈ (start settings text).turns steps) : t.Atomic := by
  obtain ⟨before, a, after, -, rfl⟩ := exists_of_mem_turns h
  exact (outcome_turn _ a).atomic

/-- A document that cannot be written, while the engine has an error and a text edit waits. -/
theorem atomic_of_pending_edit :
    ∃ t, t ∈ (start {} "map(").turns
        [.editText "map(\"A\", \"B\");",
          .setDocument { entries := [{ mapping := .sequence "F1" [] }] }] ∧
      t.Brings { entries := [{ mapping := .sequence "F1" [] }] } ∧ t.before.deadline = some 500 ∧
      t.before.state.isError = true ∧ t.Atomic := by
  let s := (start {} "map(").run [.editText "map(\"A\", \"B\");"]
  have h : s.turn (.setDocument { entries := [{ mapping := .sequence "F1" [] }] }) ∈
      (start {} "map(").turns [.editText "map(\"A\", \"B\");",
        .setDocument { entries := [{ mapping := .sequence "F1" [] }] }] :=
    List.mem_cons_of_mem _ List.mem_cons_self
  exact ⟨_, h, .inl rfl, by decide +kernel, by decide +kernel, atomic_of_mem_turns {} "map(" h⟩

end Session

end KeyRemap
