import KeyRemap.Proofs.Sync.Run

/-!
# What an observer is told

Each step of a session sends a whole block of events or none (`Turn.Complete`), and the block tells
what the engine is after it: its state, its revision and what it published. So an observer that
comes at any time has a record of the engine for as long as it stays (`recorded_received`).
-/
namespace KeyRemap

namespace SyncEvent

/-- The state that an event tells of. -/
def state? : SyncEvent → Option SyncState
  | .stateChanged state => some state
  | _ => none

/-- The revision of a publication. -/
def revision? : SyncEvent → Option Nat
  | .documentPublished revision _ | .textPublished revision _ => some revision
  | _ => none

end SyncEvent

namespace Engine

/-- The step reads the text. -/
inductive ReadsText (g : Engine) : SessionStep → StepResult → Prop
  | poll : ReadsText g .poll (.polled true)
  | forceSync (h : g.authority = .text) : ReadsText g .forceSync .nothing

/-- The step writes a document. -/
inductive WritesText (g : Engine) : SessionStep → StepResult → Prop
  | setDocument (document : Document) : WritesText g (.setDocument document) .nothing
  | edit (e : Edit) : WritesText g (.edit e) (.edited (.ok ()))
  | forceSync (h : g.authority = .document) : WritesText g .forceSync .nothing

/-- The step does nothing that an observer is told. -/
inductive Rests (g : Engine) : SessionStep → StepResult → Prop
  | editText (text : String) : Rests g (.editText text) .nothing
  | advance (time : Nat) : Rests g (.advance time) .nothing
  | poll : Rests g .poll (.polled false)
  | clearError (h : g.state.isError = false) : Rests g .clearError .nothing
  | subscribe : Rests g .subscribe .nothing
  | unsubscribe : Rests g .unsubscribe .nothing

end Engine

/-- A step of a session: what was done and answered, the engine before and after it, and the events
that were sent. -/
structure Turn where
  action : SessionStep
  answer : StepResult
  before : Engine
  after : Engine
  events : List SyncEvent

namespace Turn

/-- The events of a turn are one of the blocks, as what was done and its outcome demand. -/
inductive Complete : Turn → Prop
  | documentPublished {g g' : Engine} {a : SessionStep} {answer : StepResult}
      (h : g.ReadsText a answer) (hr : g'.revision = g.revision + 1) (hs : g'.state = .idle) :
      Complete ⟨a, answer, g, g',
        [.stateChanged .parsing, .stateChanged .syncing,
          .documentPublished g'.revision g'.document, .stateChanged .idle]⟩
  | invalidPublished {g g' : Engine} {a : SessionStep} {answer : StepResult} {i : Issue}
      (h : g.ReadsText a answer) (hr : g'.revision = g.revision + 1)
      (hs : g'.state = .error (.validation i)) :
      Complete ⟨a, answer, g, g',
        [.stateChanged .parsing, .stateChanged .syncing,
          .documentPublished g'.revision g'.document, .stateChanged (.error (.validation i)),
          .failed (.validation i)]⟩
  | unreadable {g g' : Engine} {a : SessionStep} {answer : StepResult} {e : SyntaxError}
      (h : g.ReadsText a answer) (hr : g'.revision = g.revision)
      (hs : g'.state = .error (.parse e)) :
      Complete ⟨a, answer, g, g',
        [.stateChanged .parsing, .stateChanged (.error (.parse e)), .failed (.parse e)]⟩
  | textPublished {g g' : Engine} {a : SessionStep} {answer : StepResult}
      (h : g.WritesText a answer) (hr : g'.revision = g.revision + 1) (hs : g'.state = .idle) :
      Complete ⟨a, answer, g, g',
        [.stateChanged .generating, .stateChanged .syncing,
          .textPublished g'.revision g'.text, .stateChanged .idle]⟩
  | unwritable {g g' : Engine} {a : SessionStep} {answer : StepResult} {e : SyntaxError}
      (h : g.WritesText a answer) (hr : g'.revision = g.revision)
      (hs : g'.state = .error (.parse e)) :
      Complete ⟨a, answer, g, g',
        [.stateChanged .generating, .stateChanged (.error (.parse e)), .failed (.parse e)]⟩
  | cleared {g g' : Engine} (h : g.state.isError = true) (hr : g'.revision = g.revision)
      (hs : g'.state = .idle) :
      Complete ⟨.clearError, .nothing, g, g', [.stateChanged .idle]⟩
  | rejected {g : Engine} {e : Edit} {reason : EditError} :
      Complete ⟨.edit e, .edited (.error reason), g, g, [.editRejected reason]⟩
  | silent {g g' : Engine} {a : SessionStep} {answer : StepResult} (h : g.Rests a answer)
      (hr : g'.revision = g.revision) (hs : g'.state = g.state) :
      Complete ⟨a, answer, g, g', []⟩

namespace Complete

variable {t : Turn}

/-- An edit is answered with an error just when its turn sends the rejection and nothing else. -/
theorem answer_eq_error_iff (h : t.Complete) (reason : EditError) :
    t.answer = .edited (.error reason) ↔ t.events = [.editRejected reason] := by
  cases h with
  | rejected => simp
  | documentPublished h | invalidPublished h | unreadable h | textPublished h | unwritable h
  | silent h => cases h <;> simp
  | cleared => simp

/-- The last state that is told is that of the engine; if none is, the state is as before. -/
theorem state_eq (h : t.Complete) :
    (t.events.filterMap SyncEvent.state?).getLast?.getD t.before.state = t.after.state := by
  cases h with
  | rejected => rfl
  | documentPublished _ _ hs | invalidPublished _ _ hs | unreadable _ _ hs | textPublished _ _ hs
  | unwritable _ _ hs | cleared _ _ hs | silent _ _ hs => exact hs.symm

/-- A turn publishes nothing, or the revision behind the one before it. -/
theorem revisions_eq (h : t.Complete) :
    ∃ n, t.events.filterMap SyncEvent.revision? = List.range' (t.before.revision + 1) n ∧
      t.after.revision = t.before.revision + n := by
  cases h with
  | documentPublished _ hr | invalidPublished _ hr | textPublished _ hr =>
    exact ⟨1, congrArg ([·]) hr, hr⟩
  | unreadable _ hr | unwritable _ hr | silent _ hr | cleared _ hr =>
    exact ⟨0, rfl, hr⟩
  | rejected => exact ⟨0, rfl, rfl⟩

end Complete

end Turn

namespace Engine

variable {g : Engine}

/-- Reading sends a whole block. -/
theorem Reading.complete {r : Engine × List SyncEvent} (h : Reading { g with deadline := none } r)
    {a : SessionStep} {answer : StepResult} (ha : g.ReadsText a answer) :
    Turn.Complete ⟨a, answer, g, r.1, r.2⟩ := by
  cases h with
  | unreadable => exact .unreadable ha rfl rfl
  | invalid => exact .invalidPublished ha rfl rfl
  | valid => exact .documentPublished ha rfl rfl

theorem Change.complete {document : Document} {r : Engine × List SyncEvent}
    (h : g.Change document r) {a : SessionStep} {answer : StepResult}
    (ha : g.WritesText a answer) : Turn.Complete ⟨a, answer, g, r.1, r.2⟩ := by
  cases h with
  | rolledBack => exact .unwritable ha rfl rfl
  | published => exact .textPublished ha rfl rfl

theorem Writing.complete {r : (Engine × List SyncEvent) × Bool} (h : g.Writing r)
    {a : SessionStep} {answer : StepResult} (ha : g.WritesText a answer) :
    Turn.Complete ⟨a, answer, g, r.1.1, r.1.2⟩ := by
  cases h with
  | unreadable => exact .unwritable ha rfl rfl
  | published => exact .textPublished ha rfl rfl

/-- Every outcome sends a whole block or nothing. -/
theorem Outcome.complete {now : Nat} {a : SessionStep} {r : Engine × List SyncEvent}
    {answer : StepResult} (h : g.Outcome now a r answer) :
    Turn.Complete ⟨a, answer, g, r.1, r.2⟩ := by
  cases h with
  | editText text => exact .silent (.editText text) rfl rfl
  | advance time => exact .silent (.advance time) rfl rfl
  | waited => exact .silent .poll rfl rfl
  | polled _ hr => exact hr.complete .poll
  | setDocument hr => exact hr.complete (.setDocument _)
  | rejected => exact .rejected
  | edited _ hr => exact hr.complete (.edit _)
  | cleared h => exact .cleared h rfl rfl
  | nothingToClear h => exact .silent (.clearError h) rfl rfl
  | forcedText ha hr => exact hr.complete (.forceSync ha)
  | forcedDocument ha hr => exact hr.complete (.forceSync ha)
  | subscribe => exact .silent .subscribe rfl rfl
  | unsubscribe => exact .silent .unsubscribe rfl rfl

end Engine

namespace Session

/-- The turn that a step is. Its events are sent whether or not there is an observer. -/
def turn (s : Session) (a : SessionStep) : Turn where
  action := a
  answer := (s.step a).2.1
  before := s.engine
  after := (s.step a).1.engine
  events := ({ s with observed := true }.step a).2.2

/-- The turns of a run. -/
def turns (s : Session) : List SessionStep → List Turn
  | [] => []
  | a :: as => s.turn a :: turns (s.step a).1 as

/-- The events that are sent in a run. -/
def sent (s : Session) (as : List SessionStep) : List SyncEvent := (s.turns as).flatMap (·.events)

/-- The events that the observer receives in a run. -/
def received (s : Session) : List SessionStep → List SyncEvent
  | [] => []
  | a :: as => (s.step a).2.2 ++ received (s.step a).1 as

/-- A turn comes to one of the outcomes, whether or not there is an observer. -/
theorem outcome_turn (s : Session) (a : SessionStep) :
    s.engine.Outcome s.now a ((s.turn a).after, (s.turn a).events) (s.turn a).answer := by
  obtain ⟨r, hr, he, hs⟩ := { s with observed := true }.outcome_step a
  have hengine : ({ s with observed := true }.step a).1.engine = (s.turn a).after := by
    cases a <;> rfl
  have hanswer : ({ s with observed := true }.step a).2.1 = (s.turn a).answer := by
    cases a <;> rfl
  have hr' : r = ((s.turn a).after, (s.turn a).events) :=
    Prod.ext (he.symm.trans hengine) hs.symm
  rwa [hanswer, hr'] at hr

theorem complete_turn (s : Session) (a : SessionStep) : (s.turn a).Complete :=
  (s.outcome_turn a).complete

/-- A turn of a run is the one that its step is in the session before it. -/
theorem exists_of_mem_turns {s : Session} {as : List SessionStep} {t : Turn}
    (h : t ∈ s.turns as) : ∃ before a after, as = before ++ a :: after ∧
      t = (s.run before).turn a := by
  induction as generalizing s with
  | nil => cases h
  | cons a as ih =>
    obtain rfl | h := List.mem_cons.1 h
    · exact ⟨[], a, as, rfl, rfl⟩
    · obtain ⟨before, b, after, rfl, rfl⟩ := ih h
      exact ⟨a :: before, b, after, rfl, rfl⟩

/-- Every turn of a run sends a whole block or nothing. -/
theorem complete_of_mem_turns {s : Session} {as : List SessionStep} {t : Turn}
    (h : t ∈ s.turns as) : t.Complete := by
  obtain ⟨before, a, after, -, rfl⟩ := exists_of_mem_turns h
  exact complete_turn _ a

/-- An observer that stays receives all that is sent. -/
theorem received_eq_sent {s : Session} (hs : s.observed = true) {as : List SessionStep}
    (ha : .unsubscribe ∉ as) : s.received as = s.sent as := by
  induction as generalizing s with
  | nil => rfl
  | cons a as ih =>
    obtain ⟨hne, has⟩ := not_or.1 (mt List.mem_cons.2 ha)
    have hstays : (s.step a).1.observed = true := by
      cases a with
      | unsubscribe => exact absurd rfl hne
      | subscribe => rfl
      | _ => exact hs
    have hsame : { s with observed := true } = s := by rw [← hs]
    rw [received, ih hstays has, sent, sent, turns, List.flatMap_cons, turn, hsame]

@[simp] theorem sent_cons (s : Session) (a : SessionStep) (as : List SessionStep) :
    s.sent (a :: as) = (s.turn a).events ++ (s.step a).1.sent as := rfl

/-- The last state that is told in a run is that of the engine at its end. -/
theorem state_run (s : Session) (as : List SessionStep) :
    ((s.sent as).filterMap SyncEvent.state?).getLast?.getD s.engine.state =
      (s.run as).engine.state := by
  induction as generalizing s with
  | nil => rfl
  | cons a as ih =>
    have hturn : _ = (s.step a).1.engine.state := (s.complete_turn a).state_eq
    rw [run, ← ih, ← hturn, sent_cons, List.filterMap_append, List.getLast?_append]
    cases (((s.step a).1.sent as).filterMap SyncEvent.state?).getLast? <;> rfl

/-- The publications of a run are numbered one by one. -/
theorem revisions_run (s : Session) (as : List SessionStep) :
    ∃ n, (s.sent as).filterMap SyncEvent.revision? = List.range' (s.engine.revision + 1) n ∧
      (s.run as).engine.revision = s.engine.revision + n := by
  induction as generalizing s with
  | nil => exact ⟨0, rfl, rfl⟩
  | cons a as ih =>
    obtain ⟨m, hm, hr⟩ : ∃ m, _ ∧ (s.step a).1.engine.revision = s.engine.revision + m :=
      (s.complete_turn a).revisions_eq
    obtain ⟨n, hn, he⟩ := ih (s.step a).1
    refine ⟨m + n, ?_, by rw [run, he, hr, Nat.add_assoc]⟩
    rw [sent_cons, List.filterMap_append, hm, hn, hr, Nat.add_right_comm]
    exact List.range'_append_1

/-- The events that are sent since the engine was made, those of its first reading included. -/
def sentSinceStart (settings : Settings) (text : String) (as : List SessionStep) :
    List SyncEvent :=
  (Engine.readText { settings := settings, text := text }).2 ++ (start settings text).sent as

/-- The revision is the number of publications, that of the first text included. -/
theorem revision_run (settings : Settings) (text : String) (as : List SessionStep) :
    ((start settings text).run as).engine.revision =
      ((sentSinceStart settings text as).filterMap SyncEvent.revision?).length := by
  -- The first reading is told like one that is forced.
  let g : Engine := { settings := settings, text := text }
  have hfirst : Turn.Complete ⟨.forceSync, .nothing, g, g.readText.1, g.readText.2⟩ :=
    (Engine.reading_readText g).complete (.forceSync rfl)
  obtain ⟨m, hm, hr⟩ := hfirst.revisions_eq
  obtain ⟨n, hn, he⟩ := (start settings text).revisions_run as
  rw [sentSinceStart, List.filterMap_append, List.length_append, hm, hn, List.length_range',
    List.length_range', he, show (start settings text).engine.revision = m by
      simpa [g, start, Engine.create] using hr]

/-- What an observer knows of an engine that it has watched for some steps. -/
structure Recorded (s : Session) (as : List SessionStep) (events : List SyncEvent) : Prop where
  /-- It has received whole blocks, one from each turn that is not silent. -/
  blocks : events = (s.turns as).flatMap (·.events) ∧ ∀ t ∈ s.turns as, t.Complete
  /-- It is told of an edit that cannot be made, and of no other one. -/
  rejections : ∀ t ∈ s.turns as, ∀ reason,
    t.answer = .edited (.error reason) ↔ t.events = [.editRejected reason]
  /-- The last state that it was told is that of the engine. -/
  state : (events.filterMap SyncEvent.state?).getLast?.getD s.engine.state =
    (s.run as).engine.state
  /-- The publications that it has received are numbered one by one, from the revision that it
  found to that of the engine. -/
  revisions : ∃ n,
    events.filterMap SyncEvent.revision? = List.range' (s.engine.revision + 1) n ∧
      (s.run as).engine.revision = s.engine.revision + n

/-- An observer that comes at any time has a record of the engine for as long as it stays, and the
engine's revision is the number of publications since it was made. -/
theorem recorded_received (settings : Settings) (text : String) (before : List SessionStep)
    {after : List SessionStep} (ha : .unsubscribe ∉ after) {s : Session}
    (hs : (start settings text).run (before ++ [.subscribe]) = s) :
    s.Recorded after (s.received after) ∧
      (s.run after).engine.revision =
        ((sentSinceStart settings text (before ++ [.subscribe] ++ after)).filterMap
          SyncEvent.revision?).length := by
  have hobserved : s.observed = true := by rw [← hs, run_append]; rfl
  refine ⟨?_, by rw [← revision_run, run_append, hs]⟩
  rw [received_eq_sent hobserved ha]
  exact {
    blocks := ⟨rfl, fun t ht => complete_of_mem_turns ht⟩
    rejections := fun t ht => (complete_of_mem_turns ht).answer_eq_error_iff
    state := s.state_run after
    revisions := s.revisions_run after }

/-- An observer that comes while a text cannot be read, and stays until a text edit was read and an
edit was refused. -/
theorem recorded_received_of_refused_edit :
    ∃ s, (start { debounce := 1 } "map(").run ([.clearError, .unsubscribe] ++ [.subscribe]) = s ∧
      s.Recorded [.editText "map(\"A\", \"B\");", .advance 1, .poll, .edit (.removeDevice 0)]
        (s.received
          [.editText "map(\"A\", \"B\");", .advance 1, .poll, .edit (.removeDevice 0)]) ∧
      (s.run [.editText "map(\"A\", \"B\");", .advance 1, .poll,
          .edit (.removeDevice 0)]).engine.revision =
        ((sentSinceStart { debounce := 1 } "map(" ([.clearError, .unsubscribe] ++ [.subscribe] ++
          [.editText "map(\"A\", \"B\");", .advance 1, .poll,
            .edit (.removeDevice 0)])).filterMap SyncEvent.revision?).length :=
  ⟨_, rfl, recorded_received { debounce := 1 } "map(" [.clearError, .unsubscribe] (by simp) rfl⟩

end Session

end KeyRemap
