import KeyRemap.Proofs.Edit.Preservation
import KeyRemap.Proofs.Script.Refusal
import KeyRemap.Proofs.Sync.Run

/-!
# Documents that are taken back

An engine takes a document or takes the change back (`Published`, `RolledBack`). It takes it back
just when a macro has no keys or the text is too long (`rolledBack_setDocument_iff`). In a session
where documents are read or edited piece by piece each document can be written, so an edit that can
be made is taken back only if the text is too long (`keepsInStep_run`).
-/
namespace KeyRemap

namespace Engine

variable {g : Engine} {d : Document} {r : Engine × List SyncEvent}

/-- The text that the engine would publish for a document. -/
def textFor (g : Engine) (d : Document) : String :=
  String.ofList (Script.write g.settings.layout d)

/-- Only the state differs from before: it tells why no text was published. -/
def RolledBack (g : Engine) (r : Engine × List SyncEvent) : Prop :=
  ∃ e, r = ({ g with state := .error (.parse e) },
    [.stateChanged .generating, .stateChanged (.error (.parse e)), .failed (.parse e)])

/-- The document is that of the engine, and its text was published. -/
def Published (g : Engine) (d : Document) (r : Engine × List SyncEvent) : Prop :=
  r = ({ g with
    state := .idle, document := d, authority := .document, deadline := none, text := g.textFor d,
    diagnostics := [], revision := g.revision + 1 },
    [.stateChanged .generating, .stateChanged .syncing,
      .textPublished (g.revision + 1) (g.textFor d), .stateChanged .idle])

theorem Published.not_rolledBack (h : g.Published d r) : ¬ g.RolledBack r := by
  rintro ⟨e, he⟩
  cases h.symm.trans he

/-- A change is published or rolled back as its text can be read or not. -/
theorem Change.cases_readable (h : g.Change d r) :
    ((∃ d', Script.read g.settings.maxInputBytes (g.textFor d) = .ok d') ∧ g.Published d r) ∨
      (¬ (∃ d', Script.read g.settings.maxInputBytes (g.textFor d) = .ok d') ∧ g.RolledBack r) := by
  cases h with
  | @rolledBack e h =>
    refine .inr ⟨fun ⟨d', hd⟩ => ?_, e, rfl⟩
    cases h.symm.trans hd
  | @published d' h => exact .inl ⟨⟨d', h⟩, rfl⟩

/-- The text of a document whose timeouts are in the range of numbers is read just when it is no
longer than the limit and each macro has keys. -/
theorem exists_read_textFor_iff (g : Engine) (h : d.InRange) :
    (∃ d', Script.read g.settings.maxInputBytes (g.textFor d) = .ok d') ↔
      (g.textFor d).utf8ByteSize ≤ g.settings.maxInputBytes ∧
        ∀ e ∈ d.allEntries, e.mapping.isEmptySequence = false := by
  rw [← Script.exists_parse_write_iff g.settings.layout h]
  simp only [Script.read_eq_ok_iff, textFor, String.toList_ofList, exists_and_left]

/-- A document whose timeouts are in the range of numbers is taken back just when a macro anywhere
in it has no keys or its text is too long. In all other cases its text is published. -/
theorem rolledBack_setDocument_iff (g : Engine) (h : d.InRange) :
    (g.RolledBack (g.setDocument d) ↔
      (∃ e ∈ d.allEntries, e.mapping.isEmptySequence = true) ∨
        g.settings.maxInputBytes < (g.textFor d).utf8ByteSize) ∧
    (¬ g.RolledBack (g.setDocument d) → g.Published d (g.setDocument d)) := by
  have hreads := g.exists_read_textFor_iff h
  obtain ⟨hr, hp⟩ | ⟨hr, hb⟩ := (g.change_setDocument d).cases_readable
  · obtain ⟨hsize, hkeys⟩ := hreads.1 hr
    refine ⟨iff_of_false hp.not_rolledBack ?_, fun _ => hp⟩
    rintro (⟨e, he, hs⟩ | hlong)
    · simp [hkeys e he] at hs
    · omega
  · refine ⟨iff_of_true hb ?_, fun h => absurd hb h⟩
    by_contra hne
    obtain ⟨hkeys, hsize⟩ := not_or.1 hne
    exact hr (hreads.2 ⟨Nat.le_of_not_lt hsize, by simpa using hkeys⟩)

/-- A macro without keys in a layer of a device block. -/
theorem rolledBack_emptySequence_of_layer :
    (create {} "").RolledBack ((create {} "").setDocument
      { devices := [{ pattern := "*", layers := [{ name := "nav", entries :=
        [{ mapping := .tapHold "A" "B" "C" (-9223372036854775808) },
          { mapping := .sequence "D" [] }] }] }] }) := by
  refine ((rolledBack_setDocument_iff (create {} "") ?_).1).2 (.inl ?_)
  · simp [Document.InRange, Document.allEntries, Mapping.InRange, fitsSigned]
  · simp [Document.allEntries, Mapping.isEmptySequence]

end Engine

/-- Steps that bring no whole document but as text. The timeouts that an edit brings are in the
range of numbers. -/
def SessionStep.Piecemeal : SessionStep → Prop
  | .setDocument _ => False
  | .edit e => e.isReplace = false ∧ e.InRange
  | _ => True

namespace Engine

variable {g : Engine} {d : Document} {r : Engine × List SyncEvent}

theorem writable_of_read {limit : Nat} {source : String} (h : Script.read limit source = .ok d) :
    d.Writable :=
  Script.writable_of_parse (Script.read_eq_ok_iff.1 h).2

theorem Reading.writable (h : g.Reading r) (hg : g.document.Writable) :
    r.1.document.Writable := by
  cases h with
  | unreadable => exact hg
  | invalid hd | valid hd => exact writable_of_read hd

theorem Change.writable (h : g.Change d r) (hg : g.document.Writable) (hd : d.Writable) :
    r.1.document.Writable := by
  cases h with
  | rolledBack => exact hg
  | published => exact hd

/-- No step that brings no whole document makes the document of an engine one that a script cannot
hold. -/
theorem Outcome.writable {now : Nat} {a : SessionStep} {answer : StepResult}
    (h : g.Outcome now a r answer) (ha : a.Piecemeal) (hg : g.document.Writable) :
    r.1.document.Writable := by
  cases h with
  | polled _ hr | forcedText _ hr => exact hr.writable hg
  | setDocument => cases ha
  | edited he hr => exact hr.writable hg ((Edit.makes_of_apply he).writable ha.1 ha.2 hg)
  | forcedDocument _ hr =>
    cases hr with
    | unreadable | published => exact hg
  | _ => exact hg

/-- An edit that can be made takes the document that it makes. -/
theorem exists_apply_of_edit {e : Edit} (h : (g.edit e).2 = .ok ()) :
    ∃ d, e.apply g.document = .ok d ∧ (g.edit e).1 = g.setDocument d := by
  unfold edit at h ⊢
  cases ha : e.apply g.document with
  | error reason => rw [ha] at h; cases h
  | ok d => exact ⟨d, rfl, rfl⟩

/-- An edit keeps text and document in step: the text of what it makes of the document is published
and read as the document, or it is taken back since that text is too long. -/
def KeepsInStep (g : Engine) (e : Edit) : Prop :=
  ∃ d, e.apply g.document = .ok d ∧
    ((g.Published d (g.edit e).1 ∧
        ∃ d', Script.read g.settings.maxInputBytes (g.edit e).1.1.text = .ok d' ∧
          d'.Agrees (g.edit e).1.1.document) ∨
      (g.RolledBack (g.edit e).1 ∧ g.settings.maxInputBytes < (g.textFor d).utf8ByteSize))

/-- What is published of a document that a script can hold is read as the document. -/
theorem Published.agrees (h : g.Published d r) (hw : d.Writable) {d' : Document}
    (hd : Script.read g.settings.maxInputBytes (g.textFor d) = .ok d') :
    Script.read g.settings.maxInputBytes r.1.text = .ok d' ∧ d'.Agrees r.1.document := by
  obtain ⟨d'', hparse, hagrees⟩ := Script.parse_write g.settings.layout (.inl hw)
  have hsame : d'' = d' := by
    rw [Script.read_eq_ok_iff, textFor, String.toList_ofList, hparse] at hd
    exact Except.ok.inj hd.2
  cases h
  exact ⟨hd, hsame ▸ hagrees⟩

/-- An edit of a document that a script can hold is taken back only if the text is too long. -/
theorem keepsInStep_of_writable {e : Edit} (he : (SessionStep.edit e).Piecemeal)
    (hg : g.document.Writable) (ha : (g.edit e).2 = .ok ()) : g.KeepsInStep e := by
  obtain ⟨d, hd, hr⟩ := exists_apply_of_edit ha
  have hw : d.Writable := (Edit.makes_of_apply hd).writable he.1 he.2 hg
  refine ⟨d, hd, ?_⟩
  rw [hr]
  obtain ⟨⟨d', hread⟩, hp⟩ | ⟨hread, hb⟩ := (g.change_setDocument d).cases_readable
  · exact .inl ⟨hp, d', hp.agrees hw hread⟩
  · -- The macros of a document that a script can hold have keys, so only the size is left.
    refine .inr ⟨hb, ?_⟩
    rw [exists_read_textFor_iff g hw.sayable.inRange, not_and] at hread
    by_contra hsize
    exact hread (Nat.le_of_not_lt hsize) fun e he => (Mapping.sayable_iff.1 (hw.sayable e he)).2

end Engine

namespace Session

open Engine

/-- In a session where documents are read or edited piece by piece, a script can hold them. -/
theorem writable_run (settings : Settings) (text : String) {steps : List SessionStep}
    (hs : ∀ a ∈ steps, a.Piecemeal) :
    ((start settings text).run steps).engine.document.Writable := by
  refine run_induction_of (P := fun g => g.document.Writable) (fun hr ha hg => hr.writable ha hg)
    ?_ hs
  have hempty : Document.Writable {} := Document.Writable.trailing (by simp)
  exact (reading_readText { settings := settings, text := text }).writable hempty

/-- Behind any steps that bring no whole document, an edit that can be made keeps text and document
in step. -/
theorem keepsInStep_run (settings : Settings) (text : String) {steps : List SessionStep}
    (hs : ∀ a ∈ steps, a.Piecemeal) {e : Edit} (he : (SessionStep.edit e).Piecemeal)
    (ha : (((start settings text).run steps).engine.edit e).2 = .ok ()) :
    ((start settings text).run steps).engine.KeepsInStep e :=
  keepsInStep_of_writable he (writable_run settings text hs) ha

/-- An edit of a layer of a text that was read after its quiet time. -/
theorem keepsInStep_polled_layer :
    ∃ steps g e,
      steps = [.editText "layer(\"nav\") \x7b map(\"A\", \"B\"); // keys\n\x7d", .advance 5,
        .poll] ∧
      ((start { debounce := 5 } "").run steps).engine = g ∧
      e = .setMapping (.globalLayer "nav") (.tapHold "C" "D" "E" 200) ∧
      (∀ a ∈ steps, a.Piecemeal) ∧ (SessionStep.edit e).Piecemeal ∧
      (g.edit e).2 = .ok () ∧ g.KeepsInStep e := by
  have hs : ∀ a ∈ [SessionStep.editText
      "layer(\"nav\") \x7b map(\"A\", \"B\"); // keys\n\x7d", .advance 5, .poll],
      a.Piecemeal := by
    simp [SessionStep.Piecemeal]
  have he : (SessionStep.edit
      (.setMapping (.globalLayer "nav") (.tapHold "C" "D" "E" 200))).Piecemeal := by
    simp [SessionStep.Piecemeal, Edit.isReplace, Edit.InRange, Mapping.InRange, fitsSigned]
  have ha : (((start { debounce := 5 } "").run [.editText
      "layer(\"nav\") \x7b map(\"A\", \"B\"); // keys\n\x7d", .advance 5, .poll]).engine.edit
        (.setMapping (.globalLayer "nav") (.tapHold "C" "D" "E" 200))).2 = .ok () := by
    decide +kernel
  exact ⟨_, _, _, rfl, rfl, rfl, hs, he, ha, keepsInStep_run { debounce := 5 } "" hs he ha⟩

end Session

end KeyRemap
