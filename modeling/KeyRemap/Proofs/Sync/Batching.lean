import KeyRemap.Sync.Worker
import Mathlib.Data.List.Basic

/-!
# Batches of commands

For each command the engine has an operation (`Engine.Does`), and commands can be carried out by
these one by one (`Engine.OneByOne`). A worker that takes its commands in batches leaves out text
edits, which another one follows at once, and nothing else (`SyncCommand.Coalesced`). While no poll
finds a text edit that is due, the observers of its engine and those of its snapshot cannot tell it
from an engine that carries out each command by itself (`Engine.work_batches`).
-/
namespace KeyRemap

namespace SyncCommand

/-- The commands in their order, of text edits in a row perhaps only later ones. -/
inductive Coalesced : List SyncCommand → List SyncCommand → Prop
  | nil : Coalesced [] []
  | keep (c : SyncCommand) {cs ds : List SyncCommand} (h : Coalesced cs ds) :
    Coalesced (c :: cs) (c :: ds)
  | drop (text : String) {next : String} {cs ds : List SyncCommand}
    (h : Coalesced (.editText next :: cs) ds) :
    Coalesced (.editText text :: .editText next :: cs) ds

/-- What comes before the first command to shut down, or everything if there is none. -/
inductive CutAtShutdown : List SyncCommand → List SyncCommand → Prop
  | whole {cs : List SyncCommand} (h : .shutdown ∉ cs) : CutAtShutdown cs cs
  | cut {cs ds : List SyncCommand} (h : .shutdown ∉ cs) :
    CutAtShutdown (cs ++ .shutdown :: ds) cs

namespace Coalesced

theorem append {as bs cs ds : List SyncCommand} (h : Coalesced as bs) (h' : Coalesced cs ds) :
    Coalesced (as ++ cs) (bs ++ ds) := by
  induction h with
  | nil => exact h'
  | keep c _ ih => exact ih.keep c
  | drop text _ ih => exact ih.drop text

theorem beforeShutdown {cs ds : List SyncCommand} (h : Coalesced cs ds) :
    Coalesced (beforeShutdown cs) (beforeShutdown ds) := by
  induction h with
  | nil => exact .nil
  | @keep c cs ds _ ih =>
    simp only [SyncCommand.beforeShutdown, List.takeWhile_cons]
    split
    · exact ih.keep c
    · exact .nil
  | drop text _ ih => exact ih.drop text

end Coalesced

theorem coalesced_coalesce (cs : List SyncCommand) : Coalesced cs (coalesce cs) := by
  fun_induction coalesce cs with
  | case1 => exact .nil
  | case2 c => exact .keep c .nil
  | case3 c d cs h ih =>
    cases c <;> cases d <;> simp [isEditText] at h
    exact ih.drop _
  | case4 c d cs h ih => exact ih.keep c

@[simp] theorem beforeShutdown_nil : beforeShutdown [] = [] := rfl

theorem shutdown_notMem_beforeShutdown (cs : List SyncCommand) : .shutdown ∉ beforeShutdown cs := by
  intro h
  simpa using List.all_eq_true.1 List.all_takeWhile _ h

theorem beforeShutdown_append_of_mem {as : List SyncCommand} (h : .shutdown ∈ as)
    (bs : List SyncCommand) : beforeShutdown (as ++ bs) = beforeShutdown as := by
  obtain ⟨before, after, rfl⟩ := List.append_of_mem h
  simp [beforeShutdown, List.takeWhile_append]

theorem beforeShutdown_append_of_notMem {as : List SyncCommand} (h : .shutdown ∉ as)
    (bs : List SyncCommand) : beforeShutdown (as ++ bs) = as ++ beforeShutdown bs := by
  refine List.takeWhile_append_of_pos fun c hc => ?_
  simpa using ne_of_mem_of_not_mem hc h

theorem beforeShutdown_eq_self {cs : List SyncCommand} (h : .shutdown ∉ cs) :
    beforeShutdown cs = cs := by
  simpa using beforeShutdown_append_of_notMem h []

theorem cutAtShutdown_beforeShutdown (cs : List SyncCommand) :
    CutAtShutdown cs (beforeShutdown cs) := by
  by_cases h : .shutdown ∈ cs
  · obtain ⟨before, after, rfl, hbefore⟩ := List.eq_append_cons_of_mem h
    have hcut : beforeShutdown (before ++ .shutdown :: after) = before := by
      rw [beforeShutdown_append_of_notMem hbefore]
      simp [beforeShutdown]
    rw [hcut]
    exact .cut hbefore
  · rw [beforeShutdown_eq_self h]
    exact .whole h

end SyncCommand

open SyncCommand

theorem Batch.coalesced_executed (b : Batch) : Coalesced (beforeShutdown b.commands) b.executed :=
  (coalesced_coalesce b.commands).beforeShutdown

theorem Batch.coalesced_executed_of_notMem {b : Batch} (h : .shutdown ∉ b.commands) :
    Coalesced b.commands b.executed := by
  rw [← beforeShutdown_eq_self h]
  exact b.coalesced_executed

namespace Engine

/-- The engines differ at most in when the text edit that waits is due. -/
def Alike (g h : Engine) : Prop :=
  ∃ deadline, h = { g with deadline := deadline } ∧ deadline.isSome = g.deadline.isSome

/-- Nothing but the time at which a text edit is due tells the outcomes apart. -/
structure Matches (r s : Engine × List SyncEvent) : Prop where
  engine : r.1.Alike s.1
  events : r.2 = s.2

/-- What the engine does for a command at a time. It has no operation for a command to shut down. -/
inductive Does (g : Engine) (now : Nat) : SyncCommand → Engine × List SyncEvent → Prop
  | editText (text : String) : Does g now (.editText text) (g.editText now text)
  | setDocument (document : Document) :
    Does g now (.setDocument document) (g.setDocument document)
  | edit (e : Edit) : Does g now (.edit e) (g.edit e).1
  | clearError : Does g now .clearError g.clearError
  | forceSync : Does g now .forceSync g.forceSync

/-- The commands are carried out one by one in their order. The clock gives the time for the command
of an index. -/
inductive OneByOne : Engine → (Nat → Nat) → List SyncCommand → Engine × List SyncEvent → Prop
  | nil (g : Engine) (clock : Nat → Nat) : OneByOne g clock [] (g, [])
  | cons {g : Engine} {clock : Nat → Nat} {c : SyncCommand} {cs : List SyncCommand}
    {r s : Engine × List SyncEvent} (h : g.Does (clock 0) c r)
    (hs : OneByOne r.1 (fun i => clock (i + 1)) cs s) :
    OneByOne g clock (c :: cs) (s.1, r.2 ++ s.2)

/-- The commands are carried out one by one in their order. In between the engine may be polled. -/
inductive CarriesOut : Engine → List SyncCommand → Engine × List SyncEvent → Prop
  | nil (g : Engine) : CarriesOut g [] (g, [])
  | command {g : Engine} {now : Nat} {c : SyncCommand} {cs : List SyncCommand}
    {r s : Engine × List SyncEvent} (h : g.Does now c r) (hs : CarriesOut r.1 cs s) :
    CarriesOut g (c :: cs) (s.1, r.2 ++ s.2)
  | poll {g : Engine} (now : Nat) {cs : List SyncCommand} {r : Engine × List SyncEvent}
    (h : CarriesOut (g.poll now).1.1 cs r) : CarriesOut g cs (r.1, (g.poll now).1.2 ++ r.2)

variable {g h : Engine} {now : Nat} {clock : Nat → Nat} {c : SyncCommand} {cs : List SyncCommand}
  {r : Engine × List SyncEvent}

/-- The worker carries out a command by the operation that the engine has for it. -/
theorem does_iff_execute : g.Does now c r ↔ c ≠ .shutdown ∧ r = g.execute now c := by
  constructor
  · intro h
    cases h <;> exact ⟨nofun, rfl⟩
  · rintro ⟨hc, rfl⟩
    cases c with
    | editText text => exact .editText text
    | setDocument document => exact .setDocument document
    | edit e => exact .edit e
    | clearError => exact .clearError
    | forceSync => exact .forceSync
    | shutdown => exact absurd rfl hc

/-- What commands come to one by one is what a worker makes of them, if none is to shut it down. -/
theorem oneByOne_iff_executeAll :
    g.OneByOne clock cs r ↔ .shutdown ∉ cs ∧ r = g.executeAll clock cs := by
  constructor
  · intro h
    induction h with
    | nil => exact ⟨List.not_mem_nil, rfl⟩
    | cons h _ ih =>
      obtain ⟨hc, rfl⟩ := does_iff_execute.1 h
      obtain ⟨hcs, rfl⟩ := ih
      exact ⟨List.not_mem_cons_of_ne_of_not_mem hc.symm hcs, rfl⟩
  · rintro ⟨hcs, rfl⟩
    induction cs generalizing g clock with
    | nil => exact .nil g clock
    | cons c cs ih =>
      obtain ⟨hc, hcs⟩ := not_or.1 (mt List.mem_cons.2 hcs)
      exact .cons (does_iff_execute.2 ⟨Ne.symm hc, rfl⟩) (ih hcs)

theorem oneByOne_beforeShutdown (g : Engine) (clock : Nat → Nat) (cs : List SyncCommand) :
    g.OneByOne clock (beforeShutdown cs) (g.executeAll clock (beforeShutdown cs)) :=
  oneByOne_iff_executeAll.2 ⟨shutdown_notMem_beforeShutdown cs, rfl⟩

/-- No command that is carried out of a batch is to shut down. -/
theorem oneByOne_executed (g : Engine) (b : Batch) :
    g.OneByOne b.clock b.executed (g.executeAll b.clock b.executed) :=
  g.oneByOne_beforeShutdown b.clock (coalesce b.commands)

theorem Alike.refl (g : Engine) : g.Alike g := ⟨g.deadline, rfl, rfl⟩

theorem Alike.snapshot_eq (ha : g.Alike h) : g.snapshot = h.snapshot := by
  obtain ⟨deadline, rfl, hd⟩ := ha
  simp [snapshot, hd]

theorem Alike.setDocument (ha : g.Alike h) (d : Document) :
    Matches (g.setDocument d) (h.setDocument d) := by
  obtain ⟨deadline, rfl, hd⟩ := ha
  unfold Engine.setDocument
  dsimp only
  split
  · exact ⟨.refl _, rfl⟩
  · exact ⟨⟨deadline, rfl, hd⟩, rfl⟩

theorem Alike.forceSync (ha : g.Alike h) : Matches g.forceSync h.forceSync := by
  obtain ⟨deadline, rfl, hd⟩ := ha
  unfold Engine.forceSync
  dsimp only
  split
  · exact ⟨.refl _, rfl⟩
  · unfold writeDocument
    dsimp only
    split <;> exact ⟨⟨deadline, rfl, hd⟩, rfl⟩

/-- A command does the same to engines that are alike, whatever the time. -/
theorem Alike.execute (ha : g.Alike h) (now now' : Nat) (c : SyncCommand) :
    Matches (g.execute now c) (h.execute now' c) := by
  cases c with
  | editText text =>
    obtain ⟨deadline, rfl, hd⟩ := ha
    exact ⟨⟨some _, rfl, rfl⟩, rfl⟩
  | setDocument d => exact ha.setDocument d
  | edit e =>
    have hset := ha.setDocument
    obtain ⟨deadline, rfl, hd⟩ := ha
    simp only [Engine.execute, Engine.edit]
    split
    · exact ⟨⟨deadline, rfl, hd⟩, rfl⟩
    · exact hset _
  | clearError =>
    obtain ⟨deadline, rfl, hd⟩ := ha
    simp only [Engine.execute, Engine.clearError]
    split <;> exact ⟨⟨deadline, rfl, hd⟩, rfl⟩
  | forceSync => exact ha.forceSync
  | shutdown => exact ⟨ha, rfl⟩

theorem executeAll_cons (g : Engine) (clock : Nat → Nat) (c : SyncCommand)
    (cs : List SyncCommand) : g.executeAll clock (c :: cs) =
      (((g.execute (clock 0) c).1.executeAll (fun i => clock (i + 1)) cs).1,
        (g.execute (clock 0) c).2 ++
          ((g.execute (clock 0) c).1.executeAll (fun i => clock (i + 1)) cs).2) := rfl

/-- Engines that are alike are so behind commands, coalesced or not. -/
theorem Alike.executeAll_of_coalesced {cs ds : List SyncCommand} (hc : Coalesced cs ds)
    (ha : g.Alike h) (clock clock' : Nat → Nat) :
    Matches (g.executeAll clock cs) (h.executeAll clock' ds) := by
  induction hc generalizing g h clock clock' with
  | nil => exact ⟨ha, rfl⟩
  | keep c _ ih =>
    obtain ⟨hfirst, hevents⟩ := ha.execute (clock 0) (clock' 0) c
    obtain ⟨hrest, hmore⟩ := ih hfirst (fun i => clock (i + 1)) (fun i => clock' (i + 1))
    exact ⟨hrest, congrArg₂ _ hevents hmore⟩
  | drop text _ ih =>
    -- The next text edit leaves nothing of this one, and neither sends an event.
    exact ih ha (fun i => clock (i + 1)) clock'

theorem executeAll_append (g : Engine) (clock : Nat → Nat) (as bs : List SyncCommand) :
    g.executeAll clock (as ++ bs) =
      (((g.executeAll clock as).1.executeAll (fun i => clock (i + as.length)) bs).1,
        (g.executeAll clock as).2 ++
          ((g.executeAll clock as).1.executeAll (fun i => clock (i + as.length)) bs).2) := by
  induction as generalizing g clock with
  | nil => rfl
  | cons c as ih =>
    simp only [List.cons_append, executeAll_cons, ih, List.append_assoc, List.length_cons,
      Nat.add_assoc]

theorem CarriesOut.append {as bs : List SyncCommand} {r q : Engine × List SyncEvent}
    (hr : g.CarriesOut as r) (hq : r.1.CarriesOut bs q) :
    g.CarriesOut (as ++ bs) (q.1, r.2 ++ q.2) := by
  induction hr with
  | nil => exact hq
  | command h _ ih => rw [List.append_assoc]; exact .command h (ih hq)
  | poll now _ ih => rw [List.append_assoc]; exact (ih hq).poll now

theorem OneByOne.carriesOut (h : g.OneByOne clock cs r) : g.CarriesOut cs r := by
  induction h with
  | nil g => exact .nil g
  | cons h _ ih => exact .command h ih

theorem carriesOut_executeBatch (g : Engine) (b : Batch) :
    g.CarriesOut b.executed (g.executeBatch b) := by
  have hpoll := (CarriesOut.nil ((g.executeAll b.clock b.executed).1.poll
    (b.clock b.executed.length)).1.1).poll (b.clock b.executed.length)
  have hbatch := (g.oneByOne_executed b).carriesOut.append hpoll
  rwa [List.append_nil, List.append_nil] at hbatch

/-- A worker goes on behind a batch unless it is shut down by it. -/
theorem work_cons (g : Engine) (b : Batch) (bs : List Batch) : g.work (b :: bs) =
    if .shutdown ∈ b.commands then g.executeBatch b
    else (((g.executeBatch b).1.work bs).1,
      (g.executeBatch b).2 ++ ((g.executeBatch b).1.work bs).2) := by
  simp [work]

/-- What a worker carries out is what it was sent before it is shut down, coalesced. -/
theorem exists_carriesOut_work (g : Engine) (batches : List Batch) :
    ∃ executed, Coalesced (beforeShutdown (batches.flatMap (·.commands))) executed ∧
      g.CarriesOut executed (g.work batches) := by
  induction batches generalizing g with
  | nil => exact ⟨[], .nil, .nil g⟩
  | cons b bs ih =>
    have hbatch := g.carriesOut_executeBatch b
    rw [List.flatMap_cons, work_cons]
    by_cases hs : .shutdown ∈ b.commands
    · rw [if_pos hs, beforeShutdown_append_of_mem hs]
      exact ⟨b.executed, b.coalesced_executed, hbatch⟩
    · obtain ⟨executed, hc, hrest⟩ := ih (g.executeBatch b).1
      rw [if_neg hs, beforeShutdown_append_of_notMem hs]
      exact ⟨b.executed ++ executed, (b.coalesced_executed_of_notMem hs).append hc,
        hbatch.append hrest⟩

/-- No poll finds a text edit that is due: when the commands of a batch have been carried out, none
waits, or its quiet time is not over. -/
def NeverDue (g : Engine) : List Batch → Prop
  | [] => True
  | b :: bs => ∀ r, g.OneByOne b.clock b.executed r →
    (∀ due ∈ r.1.deadline, b.clock b.executed.length < due) ∧
      (.shutdown ∉ b.commands → r.1.NeverDue bs)

theorem neverDue_cons_iff {b : Batch} {bs : List Batch} : g.NeverDue (b :: bs) ↔
    (∀ due ∈ (g.executeAll b.clock b.executed).1.deadline, b.clock b.executed.length < due) ∧
      (.shutdown ∉ b.commands → (g.executeAll b.clock b.executed).1.NeverDue bs) := by
  constructor
  · intro h
    exact h _ (g.oneByOne_executed b)
  · intro h r hr
    obtain ⟨-, rfl⟩ := oneByOne_iff_executeAll.1 hr
    exact h

theorem poll_of_lt (h : ∀ due ∈ g.deadline, now < due) : g.poll now = ((g, []), false) := by
  have hdue : ¬ g.isDue now = true := by
    rw [isDue_iff]
    rintro ⟨due, hd, hle⟩
    exact Nat.not_lt.2 hle (h due hd)
  rw [poll, if_neg hdue]

theorem executeBatch_of_lt {b : Batch}
    (h : ∀ due ∈ (g.executeAll b.clock b.executed).1.deadline, b.clock b.executed.length < due) :
    g.executeBatch b = g.executeAll b.clock b.executed := by
  simp [executeBatch, poll_of_lt h]

/-- While no poll finds a text edit that is due, a worker does to its engine what the commands do
one by one to an engine that is alike. -/
theorem Alike.work_of_neverDue {batches : List Batch} (hn : h.NeverDue batches)
    (ha : g.Alike h) (clock : Nat → Nat) :
    Matches (g.executeAll clock (beforeShutdown (batches.flatMap (·.commands))))
      (h.work batches) := by
  induction batches generalizing g h clock with
  | nil => exact ⟨ha, rfl⟩
  | cons b bs ih =>
    obtain ⟨hd, hrest⟩ := neverDue_cons_iff.1 hn
    rw [List.flatMap_cons, work_cons, executeBatch_of_lt hd]
    by_cases hs : .shutdown ∈ b.commands
    · rw [if_pos hs, beforeShutdown_append_of_mem hs]
      exact ha.executeAll_of_coalesced b.coalesced_executed clock b.clock
    · obtain ⟨hengine, hevents⟩ :=
        ha.executeAll_of_coalesced (b.coalesced_executed_of_notMem hs) clock b.clock
      rw [if_neg hs, beforeShutdown_append_of_notMem hs, executeAll_append]
      obtain ⟨hlast, hmore⟩ := ih (hrest hs) hengine fun i => clock (i + b.commands.length)
      exact ⟨hlast, congrArg₂ _ hevents hmore⟩

/-- A worker carries out what it was sent before it is shut down, but for text edits that another
one follows at once. While no poll finds a text edit that is due, it sends the same events as an
engine that carries out all these commands one by one, at whatever times, and shows the same in the
end: the two differ at most in when the text edit that waits is due. -/
theorem work_batches (g : Engine) (batches : List Batch) :
    ∃ sent, CutAtShutdown (batches.flatMap (·.commands)) sent ∧
      (∃ executed, Coalesced sent executed ∧ g.CarriesOut executed (g.work batches)) ∧
      (g.NeverDue batches → ∀ clock : Nat → Nat, ∃ r, g.OneByOne clock sent r ∧
        (g.work batches).2 = r.2 ∧ (g.work batches).1.snapshot = r.1.snapshot ∧
        r.1.Alike (g.work batches).1) := by
  refine ⟨_, cutAtShutdown_beforeShutdown _, g.exists_carriesOut_work batches, fun hn clock => ?_⟩
  obtain ⟨hengine, hevents⟩ := (Alike.refl g).work_of_neverDue hn clock
  exact ⟨_, g.oneByOne_beforeShutdown clock _, hevents.symm, hengine.snapshot_eq.symm, hengine⟩

/-- Text edits in a row that come in two batches, an edit that is refused, and commands behind the
one to shut down. -/
theorem work_batches_of_cut_text_edits :
    ∃ (g : Engine) (batches : List Batch),
      g = create {} "map(\"A\", \"B\");" ∧
      batches =
        [⟨[.editText "m", .editText "map("], fun _ => 3⟩,
          ⟨[.editText "map(\"A\", \"C\");", .edit (.removeDevice 0), .editText "", .forceSync,
            .editText "map", .shutdown, .clearError], fun i => 4 + i⟩,
          ⟨[.forceSync], fun _ => 20⟩] ∧
      g.NeverDue batches ∧
      ∃ sent r, CutAtShutdown (batches.flatMap (·.commands)) sent ∧ g.OneByOne id sent r ∧
        (g.work batches).2 = r.2 ∧ (g.work batches).1.snapshot = r.1.snapshot ∧
        r.1.Alike (g.work batches).1 := by
  let g := create {} "map(\"A\", \"B\");"
  let batches : List Batch :=
    [⟨[.editText "m", .editText "map("], fun _ => 3⟩,
      ⟨[.editText "map(\"A\", \"C\");", .edit (.removeDevice 0), .editText "", .forceSync,
        .editText "map", .shutdown, .clearError], fun i => 4 + i⟩,
      ⟨[.forceSync], fun _ => 20⟩]
  have hn : g.NeverDue batches :=
    neverDue_cons_iff.2 ⟨by decide +kernel, fun _ =>
      neverDue_cons_iff.2 ⟨by decide +kernel, fun h => absurd (by decide) h⟩⟩
  obtain ⟨sent, hsent, -, hsame⟩ := work_batches g batches
  obtain ⟨r, hr⟩ := hsame hn id
  exact ⟨g, batches, rfl, rfl, hn, sent, r, hsent, hr⟩

end Engine

end KeyRemap
