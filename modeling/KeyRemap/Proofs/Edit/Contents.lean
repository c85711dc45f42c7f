import KeyRemap.Proofs.Edit.Outcome
import KeyRemap.Proofs.Script.RoundTrip
import Mathlib.Data.List.Flatten

/-!
# What an edit brings into a document

An edit of a part brings in no mapping but the one it sets, and of the others it changes at most
where they switch to (`Edit.Makes.forall_mapping`). It brings in no comments
(`Edit.Makes.allComments_subset`).
-/
namespace KeyRemap

namespace Document

variable {d : Document}

/-- The comments that do not stand above a mapping. -/
def blockComments (d : Document) : List String :=
  d.allLayers.flatMap (fun l => l.comments ++ l.trailing) ++
    d.devices.flatMap (fun b => b.comments ++ b.trailing) ++ d.trailing

theorem allComments_eq (d : Document) :
    d.allComments = d.allEntries.flatMap (·.comments) ++ d.blockComments := by
  simp only [allComments, blockComments, List.append_assoc]

/-- The entries at an address stand together among all entries, and hold the only comments that
change with them. -/
theorem EntriesAt.contents_put {scope : Scope} {es : List Entry} {put : List Entry → Document}
    (h : d.EntriesAt scope es put) : ∃ as bs, ∀ es', (put es').allEntries = as ++ es' ++ bs ∧
      (put es').blockComments = d.blockComments := by
  cases h with
  | global =>
    exact ⟨[], d.layers.flatMap (·.entries) ++
        d.devices.flatMap (fun b => b.entries ++ b.layers.flatMap (·.entries)),
      fun es' => ⟨by simp [allEntries], rfl⟩⟩
  | @globalLayer xs ys l h hx =>
    exact ⟨d.entries ++ xs.flatMap (·.entries), ys.flatMap (·.entries) ++
        d.devices.flatMap (fun b => b.entries ++ b.layers.flatMap (·.entries)),
      fun es' => ⟨by simp [allEntries], by simp [blockComments, allLayers, h]⟩⟩
  | @device xs ys b h =>
    exact ⟨d.entries ++ d.layers.flatMap (·.entries) ++
        xs.flatMap (fun b => b.entries ++ b.layers.flatMap (·.entries)),
      b.layers.flatMap (·.entries) ++
        ys.flatMap (fun b => b.entries ++ b.layers.flatMap (·.entries)),
      fun es' => ⟨by simp [allEntries], by simp [blockComments, allLayers, h]⟩⟩
  | @deviceLayer xs ys b us vs l h hl hu =>
    exact ⟨d.entries ++ d.layers.flatMap (·.entries) ++
        xs.flatMap (fun b => b.entries ++ b.layers.flatMap (·.entries)) ++ b.entries ++
        us.flatMap (·.entries),
      vs.flatMap (·.entries) ++ ys.flatMap (fun b => b.entries ++ b.layers.flatMap (·.entries)),
      fun es' => ⟨by simp [allEntries], by simp [blockComments, allLayers, h, hl]⟩⟩

/-- So do the entries of the layers of a parent, and the comments at these layers. -/
theorem LayersAt.contents_put {parent : Option Nat} {ls : List LayerBlock}
    {put : List LayerBlock → Document} (h : d.LayersAt parent ls put) : ∃ as bs cs ds, ∀ ls',
      (put ls').allEntries = as ++ ls'.flatMap (·.entries) ++ bs ∧
      (put ls').blockComments = cs ++ ls'.flatMap (fun l => l.comments ++ l.trailing) ++ ds := by
  cases h with
  | none =>
    exact ⟨d.entries, d.devices.flatMap (fun b => b.entries ++ b.layers.flatMap (·.entries)), [],
      d.devices.flatMap (fun b => b.layers.flatMap fun l => l.comments ++ l.trailing) ++
        d.devices.flatMap (fun b => b.comments ++ b.trailing) ++ d.trailing,
      fun ls' => ⟨by simp [allEntries],
        by simp [blockComments, allLayers, List.flatMap_assoc]⟩⟩
  | @some xs ys b h =>
    exact ⟨d.entries ++ d.layers.flatMap (·.entries) ++
        xs.flatMap (fun b => b.entries ++ b.layers.flatMap (·.entries)) ++ b.entries,
      ys.flatMap (fun b => b.entries ++ b.layers.flatMap (·.entries)),
      d.layers.flatMap (fun l => l.comments ++ l.trailing) ++
        xs.flatMap (fun b => b.layers.flatMap fun l => l.comments ++ l.trailing),
      ys.flatMap (fun b => b.layers.flatMap fun l => l.comments ++ l.trailing) ++
        d.devices.flatMap (fun b => b.comments ++ b.trailing) ++ d.trailing,
      fun ls' => ⟨by simp [allEntries],
        by simp [blockComments, allLayers, h, List.flatMap_assoc]⟩⟩

section Retarget

variable {parent : Option Nat} {source target : String}

/-- What is the same for a device block with its switches turned is the same for all. -/
theorem flatMap_devices_retarget {β : Type} {f : DeviceBlock → List β}
    (hf : ∀ b, f (b.retarget source target) = f b) :
    (d.retarget parent source target).devices.flatMap f = d.devices.flatMap f := by
  have hturn (turned : Bool) (b : DeviceBlock) :
      f (if turned then b.retarget source target else b) = f b := by
    cases turned
    · rfl
    · exact hf b
  calc (d.retarget parent source target).devices.flatMap f
      = d.devices.zipIdx.flatMap fun p => f p.1 := by
        simp only [retarget, List.flatMap_map, hturn]
    _ = (d.devices.zipIdx.map Prod.fst).flatMap f := by rw [List.flatMap_map]
    _ = d.devices.flatMap f := by rw [List.zipIdx_map_fst]

/-- Turned switches leave the comments alone. -/
theorem allComments_retarget : (d.retarget parent source target).allComments = d.allComments := by
  have hentries (es : List Entry) : (es.map (·.retarget source target)).flatMap (·.comments) =
      es.flatMap (·.comments) := by
    simp [List.flatMap_map, Entry.retarget]
  have hinside (ls : List LayerBlock) : (ls.map (·.retarget source target)).flatMap
      (fun l => l.entries.flatMap (·.comments)) =
        ls.flatMap fun l => l.entries.flatMap (·.comments) := by
    simp [List.flatMap_map, LayerBlock.retarget, Entry.retarget]
  have haround (ls : List LayerBlock) : (ls.map (·.retarget source target)).flatMap
      (fun l => l.comments ++ l.trailing) = ls.flatMap fun l => l.comments ++ l.trailing := by
    simp [List.flatMap_map, LayerBlock.retarget]
  simp only [allComments, allEntries, allLayers, List.flatMap_append, List.flatMap_assoc]
  rw [flatMap_devices_retarget fun b => by simp [DeviceBlock.retarget, hentries, hinside],
    flatMap_devices_retarget fun b => by simp [DeviceBlock.retarget, haround],
    flatMap_devices_retarget fun b => by simp [DeviceBlock.retarget]]
  simp only [retarget, apply_ite (List.flatMap _), hentries, hinside, haround, ite_self]

/-- What holds of mappings, wherever their switches lead, holds of them with switches turned. -/
theorem forall_mapping_retarget {P : Mapping → Prop}
    (hP : ∀ m source target, P m → P (m.retarget source target))
    (h : ∀ e ∈ d.allEntries, P e.mapping) :
    ∀ e ∈ (d.retarget parent source target).allEntries, P e.mapping := by
  have hmap {es : List Entry} (hes : ∀ e ∈ es, P e.mapping) :
      ∀ e ∈ es.map (·.retarget source target), P e.mapping :=
    List.forall_mem_map.2 fun e he => hP e.mapping source target (hes e he)
  obtain ⟨he, hl, hd⟩ := forall_mem_allEntries.1 h
  refine forall_mem_allEntries.2 ⟨fun e hm => ?_, fun l hm => ?_, fun b hm => ?_⟩
  · obtain ⟨e', hm', rfl | rfl⟩ := mem_entries_retarget hm
    · exact he _ hm'
    · exact hP _ source target (he e' hm')
  · obtain ⟨l', hm', rfl | rfl⟩ := mem_layers_retarget hm
    · exact hl _ hm'
    · exact hmap (hl l' hm')
  · obtain ⟨b', hm', rfl | rfl⟩ := mem_devices_retarget hm
    · exact hd _ hm'
    · obtain ⟨hown, hlayers⟩ := hd b' hm'
      exact ⟨hmap hown, List.forall_mem_map.2 fun l hl => hmap (hlayers l hl)⟩

end Retarget

end Document

namespace Edit

open Document

variable {d d' : Document} {e : Edit}

/-- What holds of mappings, wherever their switches lead, is kept by an edit of a part if it holds
of the mapping that the edit sets. -/
theorem Makes.forall_mapping {P : Mapping → Prop} (h : e.Makes d d') (hr : e.isReplace = false)
    (hP : ∀ m source target, P m → P (m.retarget source target))
    (hnew : ∀ scope m, e = .setMapping scope m → m.isEmptySequence = false → P m)
    (hd : ∀ x ∈ d.allEntries, P x.mapping) : ∀ x ∈ d'.allEntries, P x.mapping := by
  cases h with
  | @setMapping scope m es put hm hp =>
    obtain ⟨as, bs, hput⟩ := hp.contents_put
    rw [← hp.put_self, (hput es).1, List.forall_mem_append, List.forall_mem_append] at hd
    obtain ⟨⟨has, hes⟩, hbs⟩ := hd
    have hnew := hnew scope m rfl hm
    rw [(hput _).1, List.forall_mem_append, List.forall_mem_append]
    refine ⟨⟨has, ?_⟩, hbs⟩
    obtain ⟨xs, e, ys, rfl, -, -, he⟩ | ⟨-, he⟩ := putMapping_cases m es
    · rw [List.forall_mem_append, List.forall_mem_cons] at hes
      rw [he, List.forall_mem_append, List.forall_mem_cons]
      exact ⟨hes.1, hnew, hes.2.2⟩
    · rw [he, List.forall_mem_append, List.forall_mem_singleton]
      exact ⟨hes, hnew⟩
  | removeMapping hp hs =>
    obtain ⟨as, bs, hput⟩ := hp.contents_put
    rw [← hp.put_self, (hput _).1] at hd
    rw [(hput _).1]
    exact fun x hx => hd x
      ((((removeFirst_sublist _ _).append_left as).append_right bs).subset hx)
  | addLayer hp hn =>
    obtain ⟨as, bs, _, _, hput⟩ := hp.contents_put
    rw [← hp.put_self, (hput _).1] at hd
    rw [(hput _).1]
    simpa using hd
  | renameLayer hp hl hx hn =>
    obtain ⟨as, bs, _, _, hput⟩ := hp.contents_put
    rw [← hp.put_self, (hput _).1] at hd
    refine forall_mapping_retarget hP ?_
    rw [(hput _).1]
    simpa using hd
  | removeLayer hp hs =>
    obtain ⟨as, bs, _, _, hput⟩ := hp.contents_put
    rw [← hp.put_self, (hput _).1] at hd
    rw [(hput _).1]
    exact fun x hx => hd x
      (((((removeFirst_sublist _ _).flatMap _).append_left as).append_right bs).subset hx)
  | addDevice pattern => simpa [allEntries] using hd
  | @removeDevice xs ys b h =>
    rw [forall_mem_allEntries, h] at hd
    rw [forall_mem_allEntries]
    exact ⟨hd.1, hd.2.1, fun c hc => hd.2.2 c (by
      simp only [List.mem_append, List.mem_cons] at hc ⊢
      tauto)⟩
  | replace document => cases hr

/-- An edit of a part brings in no comments. -/
theorem Makes.allComments_subset (h : e.Makes d d') (hr : e.isReplace = false) :
    d'.allComments ⊆ d.allComments := by
  cases h with
  | @setMapping scope m es put hm hp =>
    obtain ⟨as, bs, hput⟩ := hp.contents_put
    have hcomments : (putMapping m es).flatMap (·.comments) = es.flatMap (·.comments) := by
      obtain ⟨xs, e, ys, rfl, -, -, he⟩ | ⟨-, he⟩ := putMapping_cases m es <;> simp [he]
    have hsame : (put (putMapping m es)).allComments = (put es).allComments := by
      rw [allComments_eq, allComments_eq, (hput _).1, (hput _).2, (hput es).1, (hput es).2]
      simp only [List.flatMap_append, hcomments]
    rw [hsame, hp.put_self]
    exact List.Subset.refl _
  | @removeMapping scope source es put hp hs =>
    obtain ⟨as, bs, hput⟩ := hp.contents_put
    conv_rhs => rw [← hp.put_self]
    rw [allComments_eq, allComments_eq, (hput _).1, (hput _).2, (hput es).1, (hput es).2]
    exact ((((((removeFirst_sublist _ es).append_left as).append_right bs).flatMap _)).append_right
      _).subset
  | @addLayer parent name ls put hp hn =>
    obtain ⟨as, bs, cs, ds, hput⟩ := hp.contents_put
    conv_rhs => rw [← hp.put_self]
    rw [allComments_eq, allComments_eq, (hput _).1, (hput _).2, (hput ls).1, (hput ls).2]
    simp
  | @renameLayer parent source target xs ys l put hp hl hx hn =>
    obtain ⟨as, bs, cs, ds, hput⟩ := hp.contents_put
    rw [allComments_retarget]
    conv_rhs => rw [← hp.put_self]
    rw [allComments_eq, allComments_eq, (hput _).1, (hput _).2, (hput (xs ++ l :: ys)).1,
      (hput (xs ++ l :: ys)).2]
    simp
  | @removeLayer parent name ls put hp hs =>
    obtain ⟨as, bs, cs, ds, hput⟩ := hp.contents_put
    have hsub := removeFirst_sublist (·.name = name) ls
    conv_rhs => rw [← hp.put_self]
    rw [allComments_eq, allComments_eq, (hput _).1, (hput _).2, (hput ls).1, (hput ls).2]
    exact (((((hsub.flatMap _).append_left as).append_right bs).flatMap _).append
      (((hsub.flatMap _).append_left cs).append_right ds)).subset
  | addDevice pattern => simp [allComments, allEntries, allLayers]
  | @removeDevice xs ys b h =>
    simp only [allComments, allEntries, allLayers, h, List.flatMap_append, List.flatMap_cons]
    intro c
    simp only [List.mem_append]
    tauto
  | replace document => cases hr

end Edit

end KeyRemap
