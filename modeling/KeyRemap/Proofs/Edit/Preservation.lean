import KeyRemap.Proofs.Edit.Contents
import Mathlib.Data.List.Nodup

/-!
# What edits keep

A document that a script can hold stays one under edits of its parts (`Edit.Makes.writable`), and so
does one whose layers can be told by their names: layers of one parent have different names, no
macro is without keys, and comments are spelled as comments (`Edit.wellFormed_of_mem_scanl`).
-/
namespace KeyRemap

/-- A mapping is as sayable when its switch is turned. -/
theorem Mapping.Sayable.retarget {m : Mapping} (h : m.Sayable) (source target : String) :
    (m.retarget source target).Sayable := by
  cases m <;> exact h

theorem Mapping.isEmptySequence_retarget (m : Mapping) (source target : String) :
    (m.retarget source target).isEmptySequence = m.isEmptySequence := by
  cases m <;> rfl

namespace Document

/-- Layers of one parent have different names. -/
@[mk_iff]
structure DistinctLayers (d : Document) : Prop where
  outside : (d.layers.map (·.name)).Nodup
  inside : ∀ b ∈ d.devices, (b.layers.map (·.name)).Nodup

/-- Layers are told by their names, macros have keys, and comments are spelled as comments. -/
structure WellFormed (d : Document) : Prop where
  distinct : d.DistinctLayers
  sequences : ∀ e ∈ d.allEntries, e.mapping.isEmptySequence = false
  comments : ∀ c ∈ d.allComments, IsComment c

variable {d : Document}

/-- The names of the layers do not depend on the entries at an address. -/
theorem EntriesAt.distinctLayers_put {scope : Scope} {es : List Entry}
    {put : List Entry → Document} (h : d.EntriesAt scope es put) (hd : d.DistinctLayers)
    (es' : List Entry) : (put es').DistinctLayers := by
  obtain ⟨hout, hin⟩ := hd
  cases h with
  | global => exact ⟨hout, hin⟩
  | globalLayer h hx =>
    rw [h] at hout
    exact ⟨by simpa using hout, hin⟩
  | device h =>
    rw [h, List.forall_mem_append, List.forall_mem_cons] at hin
    exact ⟨hout, List.forall_mem_append.2 ⟨hin.1, List.forall_mem_cons.2 hin.2⟩⟩
  | deviceLayer h hl hu =>
    rw [h, List.forall_mem_append, List.forall_mem_cons, hl] at hin
    exact ⟨hout, List.forall_mem_append.2 ⟨hin.1, List.forall_mem_cons.2 (by simpa using hin.2)⟩⟩

/-- The layers of a parent have different names, and others may take their place that have. -/
theorem LayersAt.distinctLayers_put {parent : Option Nat} {ls : List LayerBlock}
    {put : List LayerBlock → Document} (h : d.LayersAt parent ls put) (hd : d.DistinctLayers) :
    (ls.map (·.name)).Nodup ∧
      ∀ ls', (ls'.map (·.name)).Nodup → (put ls').DistinctLayers := by
  obtain ⟨hout, hin⟩ := hd
  cases h with
  | none => exact ⟨hout, fun ls' hls => ⟨hls, hin⟩⟩
  | some h =>
    rw [h, List.forall_mem_append, List.forall_mem_cons] at hin
    obtain ⟨hxs, hb, hys⟩ := hin
    exact ⟨hb, fun ls' hls =>
      ⟨hout, List.forall_mem_append.2 ⟨hxs, List.forall_mem_cons.2 ⟨hls, hys⟩⟩⟩⟩

theorem DistinctLayers.retarget (h : d.DistinctLayers) (parent : Option Nat)
    (source target : String) : (d.retarget parent source target).DistinctLayers := by
  have hnames (ls : List LayerBlock) : (ls.map (·.retarget source target)).map (·.name) =
      ls.map (·.name) := by
    simp [LayerBlock.retarget]
  constructor
  case outside =>
    simp only [Document.retarget]
    split
    · rw [hnames]
      exact h.outside
    · exact h.outside
  case inside =>
    intro b hb
    obtain ⟨b', hb', rfl | rfl⟩ := mem_devices_retarget hb
    · exact h.inside _ hb'
    · rw [DeviceBlock.retarget, hnames]
      exact h.inside b' hb'

end Document

namespace Edit

variable {d d' : Document} {e : Edit}

/-- The timeouts that the edit brings are in the range of numbers. -/
def InRange : Edit → Prop
  | .setMapping _ m => m.InRange
  | .replace d => d.InRange
  | _ => True

/-- An edit of a part of a writable document makes a writable document. -/
theorem Makes.writable (h : e.Makes d d') (hr : e.isReplace = false) (hi : e.InRange)
    (hd : d.Writable) : d'.Writable where
  sayable := h.forall_mapping hr (fun _ source target hm => hm.retarget source target)
    (fun scope m he hm => Mapping.sayable_iff.2 ⟨by rwa [he] at hi, hm⟩) hd.sayable
  comments := fun c hc => hd.comments c (h.allComments_subset hr hc)

/-- A layer gets a name only where no other layer of its parent has it. -/
theorem Makes.distinctLayers (h : e.Makes d d') (hr : e.isReplace = false)
    (hd : d.DistinctLayers) : d'.DistinctLayers := by
  cases h with
  | setMapping hm hp => exact hp.distinctLayers_put hd _
  | removeMapping hp hs => exact hp.distinctLayers_put hd _
  | @addLayer parent name ls put hp hn =>
    obtain ⟨hls, hput⟩ := hp.distinctLayers_put hd
    refine hput _ ?_
    have hfree : name ∉ ls.map (·.name) := by simpa using hn
    rw [List.map_append, List.map_singleton, ← List.concat_eq_append]
    exact List.Nodup.concat hfree hls
  | @renameLayer parent source target xs ys l put hp hl hx hn =>
    obtain ⟨hls, hput⟩ := hp.distinctLayers_put hd
    refine (hput _ ?_).retarget _ _ _
    by_cases hst : source = target
    · subst hst hl
      exact hls
    · have hfree := hn hst
      simp only [List.map_append, List.map_cons, List.nodup_middle, List.nodup_cons] at hls ⊢
      refine ⟨fun hmem => ?_, hls.2⟩
      rw [← List.map_append] at hmem
      obtain ⟨x, hx, hname⟩ := List.mem_map.1 hmem
      refine hfree x ?_ hname
      rw [List.mem_append] at hx
      rw [List.mem_append, List.mem_cons]
      tauto
  | removeLayer hp hs =>
    obtain ⟨hls, hput⟩ := hp.distinctLayers_put hd
    exact hput _ (hls.sublist ((removeFirst_sublist _ _).map _))
  | addDevice pattern =>
    exact ⟨hd.outside, List.forall_mem_append.2
      ⟨hd.inside, List.forall_mem_singleton.2 List.nodup_nil⟩⟩
  | removeDevice h =>
    obtain ⟨hout, hin⟩ := hd
    rw [h, List.forall_mem_append, List.forall_mem_cons] at hin
    exact ⟨hout, List.forall_mem_append.2 ⟨hin.1, hin.2.2⟩⟩
  | replace document => cases hr

theorem Makes.wellFormed (h : e.Makes d d') (hr : e.isReplace = false) (hd : d.WellFormed) :
    d'.WellFormed where
  distinct := h.distinctLayers hr hd.distinct
  sequences := h.forall_mapping hr
    (fun m source target hm => (m.isEmptySequence_retarget source target).trans hm)
    (fun _ _ _ hm => hm) hd.sequences
  comments := fun c hc => hd.comments c (h.allComments_subset hr hc)

/-- The document after an edit, which is as it was if the edit cannot be made. -/
def attempt (d : Document) (e : Edit) : Document :=
  match e.apply d with
  | .ok d' => d'
  | .error _ => d

theorem wellFormed_attempt (hr : e.isReplace = false) (hd : d.WellFormed) :
    (attempt d e).WellFormed := by
  unfold attempt
  split
  · rename_i d' ha
    exact (makes_of_apply ha).wellFormed hr hd
  · exact hd

/-- Whatever edits of its parts are tried on a well-formed document, in whatever order, all the
documents on the way are well formed. -/
theorem wellFormed_of_mem_scanl {edits : List Edit} (hd : d.WellFormed)
    (hr : ∀ e ∈ edits, e.isReplace = false) :
    ∀ d' ∈ edits.scanl attempt d, d'.WellFormed := by
  induction edits generalizing d with
  | nil => simpa using hd
  | cons e edits ih =>
    obtain ⟨he, hedits⟩ := List.forall_mem_cons.1 hr
    rw [List.scanl_cons, List.forall_mem_cons]
    exact ⟨hd, ih (wellFormed_attempt he hd) hedits⟩

/-- A layer that takes a name of its parent only after the layer of that name is gone, and a macro
without keys. -/
theorem wellFormed_of_mem_scanl_refused :
    ∃ (d : Document) (edits : List Edit),
      d = { entries := [{ mapping := .layerSwitch "CapsLock" "nav", comments := ["// to nav"] }]
            layers := [{ name := "nav" }, { name := "sym" }] } ∧
      edits = [.renameLayer none "nav" "sym", .removeLayer none "sym",
        .renameLayer none "nav" "sym", .setMapping .global (.sequence "CapsLock" [])] ∧
      d.WellFormed ∧ (∀ e ∈ edits, e.isReplace = false) ∧
      edits.scanl attempt d =
        [d, d, { d with layers := [{ name := "nav" }] },
          { entries := [{ mapping := .layerSwitch "CapsLock" "sym", comments := ["// to nav"] }]
            layers := [{ name := "sym" }] },
          { entries := [{ mapping := .layerSwitch "CapsLock" "sym", comments := ["// to nav"] }]
            layers := [{ name := "sym" }] }] ∧
      ∀ d' ∈ edits.scanl attempt d, d'.WellFormed := by
  let d : Document :=
    { entries := [{ mapping := .layerSwitch "CapsLock" "nav", comments := ["// to nav"] }]
      layers := [{ name := "nav" }, { name := "sym" }] }
  let edits : List Edit := [.renameLayer none "nav" "sym", .removeLayer none "sym",
    .renameLayer none "nav" "sym", .setMapping .global (.sequence "CapsLock" [])]
  have hcomment : IsComment "// to nav" := .inl ⟨by decide, by decide, by rintro c ⟨⟩; rfl⟩
  have hd : d.WellFormed :=
    { distinct := ⟨by decide, by simp [d]⟩
      sequences := by decide
      comments := by simpa [d, Document.allComments, Document.allEntries, Document.allLayers]
        using hcomment }
  have hr : ∀ e ∈ edits, e.isReplace = false := by decide
  exact ⟨d, edits, rfl, rfl, hd, hr, rfl, wellFormed_of_mem_scanl hd hr⟩

end Edit

end KeyRemap
