import KeyRemap.Proofs.Sync.Consistency
import KeyRemap.Proofs.Sync.Events
import Mathlib.Data.List.Basic
import Mathlib.Data.List.Induction

/-!
# Text edits that wait

A text edit waits until a poll finds that its quiet time is over, unless something supersedes it
before (`Turn.Supersedes`). What an engine has as its deadline is the end of the quiet time of the
edit that waits (`Session.deadline_run`), so a poll reads the text just when one has waited for long
enough, and no edit is read twice by polls (`Session.debounced_run`).
-/
namespace KeyRemap

namespace Turn

/-- A text edit waits no longer: there is another one, the text of a document is published, or the
text is read. -/
def Supersedes (t : Turn) : Prop :=
  match t.action with
  | .editText _ | .forceSync => True
  | .poll => t.answer = .polled true
  | .setDocument _ | .edit _ => ∃ revision text, .textPublished revision text ∈ t.events
  | _ => False

/-- The turn is a poll that comes too early, an edit that cannot be made, a document that is taken
back or the end of an error, or the engine has no part in it. -/
def Passes (t : Turn) : Prop :=
  match t.action with
  | .poll => t.answer = .polled false
  | .edit _ => (∃ reason, t.answer = .edited (.error reason)) ∨ ∃ e, .failed (.parse e) ∈ t.events
  | .setDocument _ => ∃ e, .failed (.parse e) ∈ t.events
  | .clearError | .advance _ | .subscribe | .unsubscribe => True
  | .editText _ | .forceSync => False

/-- The turn is a poll that reads the text. -/
def polls (t : Turn) : Bool :=
  match t.answer with
  | .polled ran => ran
  | _ => false

end Turn

namespace Engine

variable {g : Engine} {now : Nat} {a : SessionStep} {r : Engine × List SyncEvent}
  {answer : StepResult}

theorem Reading.deadline_eq (h : g.Reading r) : r.1.deadline = g.deadline := by
  cases h <;> rfl

theorem Change.kept_of_not_published {d : Document} (h : g.Change d r)
    (hp : ¬ ∃ revision text, .textPublished revision text ∈ r.2) :
    r.1.deadline = g.deadline ∧ r.1.text = g.text := by
  cases h with
  | rolledBack => exact ⟨rfl, rfl⟩
  | published =>
    exact absurd ⟨_, _, List.mem_cons_of_mem _ (List.mem_cons_of_mem _ List.mem_cons_self)⟩ hp

theorem Change.deadline_eq_none {d : Document} (h : g.Change d r)
    (hp : ∃ revision text, .textPublished revision text ∈ r.2) : r.1.deadline = none := by
  cases h with
  | rolledBack => simp at hp
  | published => rfl

theorem Outcome.kept_of_not_supersedes (h : g.Outcome now a r answer)
    (hs : ¬ Turn.Supersedes ⟨a, answer, g, r.1, r.2⟩) :
    r.1.deadline = g.deadline ∧ r.1.text = g.text := by
  cases h with
  | editText | forcedText | forcedDocument => exact absurd trivial hs
  | polled => exact absurd rfl hs
  | setDocument hr | edited _ hr => exact hr.kept_of_not_published hs
  | advance | waited | rejected | cleared | nothingToClear | subscribe | unsubscribe =>
    exact ⟨rfl, rfl⟩

theorem Outcome.deadline_eq_none (h : g.Outcome now a r answer) (hg : g.Consistent)
    (hs : Turn.Supersedes ⟨a, answer, g, r.1, r.2⟩) (ha : ∀ text, a ≠ .editText text) :
    r.1.deadline = none := by
  cases h with
  | editText text => exact absurd rfl (ha text)
  | polled _ hr | forcedText _ hr => exact hr.deadline_eq
  | setDocument hr | edited _ hr => exact hr.deadline_eq_none hs
  | forcedDocument hd hr =>
    -- No text edit waits while the document was edited last.
    have hnone := (hg.written hd).1
    cases hr <;> exact hnone
  | waited => cases hs
  | rejected => simp [Turn.Supersedes] at hs
  | advance | cleared | nothingToClear | subscribe | unsubscribe => cases hs

theorem Change.not_published_of_failed {d : Document} {e : SyntaxError} (h : g.Change d r)
    (hf : .failed (.parse e) ∈ r.2) : ¬ ∃ revision text, .textPublished revision text ∈ r.2 := by
  cases h with
  | rolledBack => simp
  | published => simp at hf

theorem Outcome.not_supersedes_of_passes (h : g.Outcome now a r answer)
    (hp : Turn.Passes ⟨a, answer, g, r.1, r.2⟩) : ¬ Turn.Supersedes ⟨a, answer, g, r.1, r.2⟩ := by
  cases h with
  | setDocument hr =>
    obtain ⟨e, he⟩ := hp
    exact hr.not_published_of_failed he
  | edited _ hr =>
    obtain ⟨reason, hreason⟩ | ⟨e, he⟩ := hp
    · cases hreason
    · exact hr.not_published_of_failed he
  | rejected => simp [Turn.Supersedes]
  | waited | cleared | nothingToClear | advance | subscribe | unsubscribe => exact nofun
  | polled | editText | forcedText | forcedDocument => cases hp

/-- While no text edit waits, only a new one makes one wait. -/
theorem Outcome.deadline_eq_none_of_eq_none (h : g.Outcome now a r answer)
    (hd : g.deadline = none) (ha : ∀ text, a ≠ .editText text) : r.1.deadline = none := by
  cases h with
  | editText text => exact absurd rfl (ha text)
  | polled _ hr | forcedText _ hr => exact hr.deadline_eq
  | setDocument hr | edited _ hr =>
    cases hr with
    | rolledBack => exact hd
    | published => rfl
  | forcedDocument _ hr => cases hr <;> exact hd
  | advance | waited | rejected | cleared | nothingToClear | subscribe | unsubscribe => exact hd

theorem Outcome.deadline_eq_none_of_polls (h : g.Outcome now a r answer)
    (hp : Turn.polls ⟨a, answer, g, r.1, r.2⟩ = true) : r.1.deadline = none := by
  cases h with
  | polled _ hr => exact hr.deadline_eq
  | _ => cases hp

end Engine

namespace Session

/-- A text edit of a run waits at its end: nothing behind it supersedes it. Its text and the time at
which it was made are given. -/
inductive Waits (s : Session) : List SessionStep → String → Nat → Prop
  | of_turns {before after : List SessionStep} {text : String}
    (h : ∀ t ∈ ((s.run before).step (.editText text)).1.turns after, ¬ t.Supersedes) :
    Waits s (before ++ .editText text :: after) text (s.run before).now

variable {s : Session} {as : List SessionStep} {a : SessionStep} {text : String} {made : Nat}

@[simp] theorem turns_append (s : Session) (as bs : List SessionStep) :
    s.turns (as ++ bs) = s.turns as ++ (s.run as).turns bs := by
  induction as generalizing s with
  | nil => rfl
  | cons a as ih => simp only [List.cons_append, turns, ih, run]

theorem not_waits_nil : ¬ s.Waits [] text made := by
  intro h
  generalize has : [] = as at h
  cases h with
  | of_turns => simp at has

/-- What a step does to the text edit that waits. -/
theorem waits_append_singleton_iff : s.Waits (as ++ [a]) text made ↔
    (a = .editText text ∧ made = (s.run as).now) ∨
      (s.Waits as text made ∧ ¬ ((s.run as).turn a).Supersedes) := by
  constructor
  · intro h
    generalize has : as ++ [a] = bs at h
    cases h with
    | @of_turns before after _ h =>
      obtain rfl | ⟨after, b, rfl⟩ := List.eq_nil_or_concat' after
      · obtain ⟨rfl, ha⟩ := List.append_inj' has rfl
        cases ha
        exact .inl ⟨rfl, rfl⟩
      · rw [← List.cons_append, ← List.append_assoc] at has
        obtain ⟨rfl, ha⟩ := List.append_inj' has rfl
        cases ha
        simp only [turns_append, List.forall_mem_append] at h
        refine .inr ⟨.of_turns h.1, ?_⟩
        simpa [turns, run] using h.2
  · rintro (⟨rfl, rfl⟩ | ⟨h, hs⟩)
    · exact .of_turns fun t (ht : t ∈ []) => absurd ht List.not_mem_nil
    · cases h with
      | @of_turns before after _ h =>
        rw [List.append_assoc, List.cons_append]
        refine .of_turns ?_
        simp only [turns_append, List.forall_mem_append]
        exact ⟨h, by simpa [turns, run] using hs⟩

theorem run_append_singleton (s : Session) (as : List SessionStep) (a : SessionStep) :
    (s.run (as ++ [a])).engine = ((s.run as).turn a).after := by
  rw [run_append]
  rfl

/-- At any time of a run the engine's deadline is the end of the quiet time of the text edit that
waits, and its text is that of the edit. -/
theorem deadline_run (hc : s.engine.Consistent) (hd : s.engine.deadline = none)
    (as : List SessionStep) :
    (∀ due, (s.run as).engine.deadline = some due ↔
      ∃ text made, s.Waits as text made ∧ made + s.engine.settings.debounce = due) ∧
    ∀ text made, s.Waits as text made → (s.run as).engine.text = text := by
  induction as using List.reverseRecOn with
  | nil => simp [not_waits_nil, run, hd]
  | append_singleton as a ih =>
    obtain ⟨hdue, htext⟩ := ih
    have ho := (s.run as).outcome_turn a
    have hconsistent : (s.run as).engine.Consistent :=
      run_induction (fun hr hg => hr.consistent hg) hc as
    simp only [waits_append_singleton_iff, run_append_singleton]
    by_cases hs : ((s.run as).turn a).Supersedes
    · by_cases ha : ∃ text, a = .editText text
      · obtain ⟨text, rfl⟩ := ha
        have hafter : ((s.run as).turn (.editText text)).after =
          ((s.run as).engine.editText (s.run as).now text).1 := rfl
        simp [hafter, Engine.editText, hs]
      · have hnone : ((s.run as).turn a).after.deadline = none :=
          ho.deadline_eq_none hconsistent hs fun text h => ha ⟨text, h⟩
        simp [hnone, hs, not_exists.1 ha]
    · obtain ⟨hdeadline, htext'⟩ : ((s.run as).turn a).after.deadline = _ ∧
        ((s.run as).turn a).after.text = _ := ho.kept_of_not_supersedes hs
      have ha (text : String) : a ≠ .editText text := by
        rintro rfl
        exact hs trivial
      simpa [hdeadline, htext', hs, ha] using ⟨hdue, htext⟩

/-- A text edit is due just when one waits whose quiet time is over. -/
theorem isDue_run_iff (hc : s.engine.Consistent) (hd : s.engine.deadline = none)
    (as : List SessionStep) : (s.run as).engine.isDue (s.run as).now = true ↔
      ∃ text made, s.Waits as text made ∧
        made + s.engine.settings.debounce ≤ (s.run as).now := by
  have hdue := (deadline_run hc hd as).1
  rw [Engine.isDue_iff]
  constructor
  · rintro ⟨due, hdeadline, hle⟩
    obtain ⟨text, made, hw, rfl⟩ := (hdue due).1 hdeadline
    exact ⟨text, made, hw, hle⟩
  · rintro ⟨text, made, hw, hle⟩
    exact ⟨_, (hdue _).2 ⟨text, made, hw, rfl⟩, hle⟩

theorem polls_turn_poll (s : Session) : (s.turn .poll).polls = s.engine.isDue s.now := by
  have hanswer : (s.turn .poll).answer = .polled (s.engine.poll s.now).2 := rfl
  rw [Turn.polls, hanswer, Engine.poll]
  cases s.engine.isDue s.now <;> rfl

/-- What a poll comes to when a text edit is due. -/
theorem reading_turn_poll (h : s.engine.isDue s.now = true) :
    Engine.Reading { s.engine with deadline := none }
      ((s.turn .poll).after, (s.turn .poll).events) := by
  have hpoll : ((s.turn .poll).after, (s.turn .poll).events) = (s.engine.poll s.now).1 := rfl
  rw [hpoll, Engine.poll, if_pos h]
  exact Engine.reading_readText _

/-- While no text edit waits and none is made, no poll reads the text. -/
theorem polls_eq_false_of_mem_turns {s : Session} (hd : s.engine.deadline = none)
    {as : List SessionStep} (ha : ∀ text, .editText text ∉ as) {t : Turn} (ht : t ∈ s.turns as) :
    t.polls = false := by
  induction as generalizing s with
  | nil => cases ht
  | cons a as ih =>
    simp only [List.mem_cons, not_or, forall_and] at ha
    obtain rfl | ht := List.mem_cons.1 ht
    · cases a with
      | poll => rw [polls_turn_poll, Engine.isDue, hd]
      | _ => rfl
    · have hnext : (s.turn a).after.deadline = none :=
        (s.outcome_turn a).deadline_eq_none_of_eq_none hd fun text h => ha.1 text h.symm
      exact ih hnext ha.2 ht

/-- Where no text edit is made, no more than one poll reads the text. -/
theorem countP_polls_le_one {s : Session} {as : List SessionStep}
    (ha : ∀ text, .editText text ∉ as) : (s.turns as).countP Turn.polls ≤ 1 := by
  induction as generalizing s with
  | nil => simp [turns]
  | cons a as ih =>
    simp only [List.mem_cons, not_or, forall_and] at ha
    rw [turns, List.countP_cons]
    split
    · rename_i hp
      have hnext : (s.turn a).after.deadline = none :=
        (s.outcome_turn a).deadline_eq_none_of_polls hp
      have hrest : ((s.step a).1.turns as).countP Turn.polls = 0 := by
        rw [List.countP_eq_zero]
        intro t ht
        simp [polls_eq_false_of_mem_turns hnext ha.2 ht]
      omega
    · have := @ih (s.step a).1 ha.2
      omega

/-- What cannot be done, polls that come too early and time that passes leave a text edit waiting as
it was. -/
theorem Waits.append_of_passes (h : s.Waits as text made) {bs : List SessionStep}
    (hb : ∀ t ∈ (s.run as).turns bs, t.Passes) : s.Waits (as ++ bs) text made := by
  cases h with
  | @of_turns before after _ h =>
    rw [List.append_assoc, List.cons_append]
    refine .of_turns ?_
    simp only [turns_append, List.forall_mem_append]
    refine ⟨h, fun t ht => ?_⟩
    rw [run_append] at hb
    have hpasses := hb t ht
    obtain ⟨cs, c, ds, -, rfl⟩ := exists_of_mem_turns ht
    exact (outcome_turn _ c).not_supersedes_of_passes hpasses

/-- Polls read the text of each edit that has waited for its quiet time, and once only. -/
structure Debounced (s : Session) (as : List SessionStep) : Prop where
  /-- A poll at the end of the run reads the text just when an edit waits whose quiet time is
  over. -/
  polls_iff : ((s.run as).turn .poll).polls = true ↔
    ∃ text made, s.Waits as text made ∧ made + s.engine.settings.debounce ≤ (s.run as).now
  /-- The text that it reads is that of the edit: the engine becomes, and sends, what reading that
  text comes to. -/
  reads : ∀ text made, s.Waits as text made →
    made + s.engine.settings.debounce ≤ (s.run as).now →
      Engine.Reading { (s.run as).engine with text := text, deadline := none }
        (((s.run as).turn .poll).after, ((s.run as).turn .poll).events)
  /-- Refused edits, documents that are taken back, the end of an error and polls that come too
  early, at whatever times, change neither the edit that waits nor its time. -/
  undisturbed : ∀ text made bs, s.Waits as text made →
    (∀ t ∈ (s.run as).turns bs, t.Passes) → s.Waits (as ++ bs) text made
  /-- Between an edit and the next one no more than one poll reads the text. -/
  once : ∀ before text between after, as = before ++ .editText text :: (between ++ after) →
    (∀ text', .editText text' ∉ between) →
      (((s.run before).step (.editText text)).1.turns between).countP Turn.polls ≤ 1

/-- Whatever the steps of a session, its polls read each text edit that has waited for its quiet
time, and once only. -/
theorem debounced_run (settings : Settings) (text : String) (steps : List SessionStep) :
    (start settings text).Debounced steps := by
  have hread := Engine.reading_readText { settings := settings, text := text }
  have hc : (start settings text).engine.Consistent := hread.consistent rfl
  have hd : (start settings text).engine.deadline = none := hread.deadline_eq
  have hdue := isDue_run_iff hc hd steps
  constructor
  case polls_iff => rwa [polls_turn_poll]
  case reads =>
    intro text' made hw hle
    obtain rfl := (deadline_run hc hd steps).2 text' made hw
    exact reading_turn_poll (hdue.2 ⟨_, made, hw, hle⟩)
  case undisturbed => exact fun _ _ _ hw hb => hw.append_of_passes hb
  case once => exact fun before text between after _ ha => countP_polls_le_one ha

-- The second edit starts the quiet time again, and the edit that is refused does not.
example : (((start { debounce := 5 } "").run
    [.editText "map(", .advance 3, .editText "", .advance 4, .edit (.removeDevice 0), .poll,
      .advance 1]).turn .poll).polls = true := by
  decide +kernel

end Session

end KeyRemap
