import KeyRemap.Proofs.Edit.Outcome
import KeyRemap.Proofs.Validation.Sources
import Mathlib.Data.List.Flatten
import Mathlib.Data.Prod.Basic

/-!
# Edits and keys that are mapped twice

An edit changes one block, while the check takes all blocks with the same pattern and layer name as
one scope. So an edit makes a document map a key twice just when it brings the key into a block
whose scope has another block that maps it (`Edit.Clashes`, `Edit.reportsDuplicate_apply_iff`).
-/
namespace KeyRemap

namespace Document

/-- The pattern around the layers of a parent. -/
def patternOf (d : Document) (parent : Option Nat) : Option String :=
  parent.bind fun index => (d.devices[index]?).map (·.pattern)

/-- What makes the scope of entries at an address one with that of others. -/
def scopeKey (d : Document) : Scope → ScopeKey
  | .global => {}
  | .globalLayer name => ⟨none, some name⟩
  | .device index => ⟨d.patternOf (some index), none⟩
  | .deviceLayer index name => ⟨d.patternOf (some index), some name⟩

theorem scopeKey_layerScope (d : Document) (parent : Option Nat) (name : String) :
    d.scopeKey (layerScope parent name) = ⟨d.patternOf parent, some name⟩ := by
  cases parent <;> rfl

/-- Some block of the scope of an address maps the key. -/
def Maps (d : Document) (scope : Scope) (source : String) : Prop :=
  (d.scopeKey scope, Vocabulary.standard.identify source) ∈ d.sources .standard

variable {d : Document}

/-- The entries of the first layer of a name in a parent are at an address. -/
theorem LayersAt.entriesAt_eq {parent : Option Nat} {xs ys : List LayerBlock} {l : LayerBlock}
    {put : List LayerBlock → Document} (h : d.LayersAt parent (xs ++ l :: ys) put)
    (hx : ∀ x ∈ xs, x.name ≠ l.name) : d.entriesAt (layerScope parent l.name) = .ok l.entries := by
  generalize hls : xs ++ l :: ys = ls at h
  cases h with
  | none => exact (EntriesAt.globalLayer hls.symm hx).entriesAt_eq
  | some h => exact (EntriesAt.deviceLayer h hls.symm hx).entriesAt_eq

variable {v : Vocabulary}

/-- The sources of the entries at an address stand together in those of the document. -/
theorem EntriesAt.sources_put {scope : Scope} {es : List Entry} {put : List Entry → Document}
    (h : d.EntriesAt scope es put) : ∃ as bs, ∀ es',
      (put es').sources v = as ++ entrySources v (d.scopeKey scope) es' ++ bs := by
  cases h with
  | global =>
    exact ⟨[], layerSources v none d.layers ++ d.devices.flatMap (deviceSources v),
      by simp [sources, scopeKey]⟩
  | @globalLayer xs ys l h hx =>
    exact ⟨entrySources v {} d.entries ++ layerSources v none xs,
      layerSources v none ys ++ d.devices.flatMap (deviceSources v),
      by simp [sources, layerSources, scopeKey]⟩
  | @device xs ys b h =>
    exact ⟨entrySources v {} d.entries ++ layerSources v none d.layers ++
        xs.flatMap (deviceSources v),
      layerSources v (some b.pattern) b.layers ++ ys.flatMap (deviceSources v),
      by simp [sources, h, deviceSources, scopeKey, patternOf]⟩
  | @deviceLayer xs ys b us vs l h hl hu =>
    exact ⟨entrySources v {} d.entries ++ layerSources v none d.layers ++
        xs.flatMap (deviceSources v) ++ entrySources v ⟨some b.pattern, none⟩ b.entries ++
        layerSources v (some b.pattern) us,
      layerSources v (some b.pattern) vs ++ ys.flatMap (deviceSources v),
      by simp [sources, h, deviceSources, layerSources, scopeKey, patternOf]⟩

/-- The sources of the layers of a parent stand together in those of the document. -/
theorem LayersAt.sources_put {parent : Option Nat} {ls : List LayerBlock}
    {put : List LayerBlock → Document} (h : d.LayersAt parent ls put) : ∃ as bs, ∀ ls',
      (put ls').sources v = as ++ layerSources v (d.patternOf parent) ls' ++ bs := by
  cases h with
  | none =>
    exact ⟨entrySources v {} d.entries, d.devices.flatMap (deviceSources v),
      by simp [sources, patternOf]⟩
  | @some xs ys b h =>
    exact ⟨entrySources v {} d.entries ++ layerSources v .none d.layers ++
        xs.flatMap (deviceSources v) ++ entrySources v ⟨.some b.pattern, .none⟩ b.entries,
      ys.flatMap (deviceSources v),
      by simp [sources, h, deviceSources, patternOf]⟩

theorem entrySources_retarget (key : ScopeKey) (es : List Entry) (source target : String) :
    entrySources v key (es.map (·.retarget source target)) = entrySources v key es := by
  have hsource (m : Mapping) : (m.retarget source target).source = m.source := by cases m <;> rfl
  simp [entrySources, Entry.retarget, hsource]

theorem layerSources_retarget (pattern : Option String) (ls : List LayerBlock)
    (source target : String) :
    layerSources v pattern (ls.map (·.retarget source target)) = layerSources v pattern ls := by
  simp [layerSources, List.flatMap_map, LayerBlock.retarget, entrySources_retarget]

theorem deviceSources_retarget (b : DeviceBlock) (source target : String) :
    deviceSources v (b.retarget source target) = deviceSources v b := by
  simp [deviceSources, DeviceBlock.retarget, entrySources_retarget, layerSources_retarget]

/-- Turned switches are for the same keys. -/
theorem sources_retarget (d : Document) (parent : Option Nat) (source target : String) :
    (d.retarget parent source target).sources v = d.sources v := by
  simp only [retarget, sources, apply_ite (entrySources v {}), apply_ite (layerSources v none),
    apply_ite (deviceSources v), List.flatMap_map, entrySources_retarget, layerSources_retarget,
    deviceSources_retarget, ite_self, flatMap_zipIdx_deviceSources]

theorem layerSources_split (as bs : List (ScopeKey × String)) (pattern : Option String)
    (xs ys : List LayerBlock) (l : LayerBlock) :
    as ++ layerSources v pattern (xs ++ l :: ys) ++ bs =
      (as ++ layerSources v pattern xs) ++ entrySources v ⟨pattern, some l.name⟩ l.entries ++
        (layerSources v pattern ys ++ bs) := by
  simp [layerSources]

/-- An entry at the end of a block repeats a source just when the source is there already. -/
theorem nodup_entrySources_append {as bs : List (ScopeKey × String)} {key : ScopeKey}
    {es : List Entry} (h : (as ++ entrySources v key es ++ bs).Nodup) (e : Entry) :
    (as ++ entrySources v key (es ++ [e]) ++ bs).Nodup ↔
      (key, v.identify e.mapping.source) ∉ as ++ entrySources v key es ++ bs := by
  have hmove : as ++ entrySources v key (es ++ [e]) ++ bs =
      as ++ entrySources v key es ++ (key, v.identify e.mapping.source) :: bs := by
    simp [entrySources]
  rw [hmove, List.nodup_middle, List.nodup_cons, and_iff_left h]

/-- A block that comes into another scope repeats a source just when one of its own is there
already. -/
theorem nodup_entrySources_move {as bs : List (ScopeKey × String)} {key key' : ScopeKey}
    {es : List Entry} (h : (as ++ entrySources v key es ++ bs).Nodup) (hk : key ≠ key') :
    (as ++ entrySources v key' es ++ bs).Nodup ↔ ∀ e ∈ es,
      (key', v.identify e.mapping.source) ∉ as ++ entrySources v key es ++ bs := by
  have hfront (k : ScopeKey) : (as ++ entrySources v k es ++ bs).Nodup ↔
      (entrySources v k es ++ (as ++ bs)).Nodup := by
    rw [List.append_assoc]
    exact (List.perm_append_comm_assoc ..).nodup_iff
  have hblock (k : ScopeKey) : (entrySources v k es).Nodup ↔
      (es.map fun e => v.identify e.mapping.source).Nodup := by
    have hmap : entrySources v k es =
        (es.map fun e => v.identify e.mapping.source).map (Prod.mk k) := by
      rw [List.map_map]
      rfl
    rw [hmap, List.nodup_map_iff (Prod.mk_right_injective k)]
  rw [hfront, List.nodup_append', hblock] at h
  rw [hfront, List.nodup_append', hblock, and_iff_right h.1, and_iff_right h.2.1]
  simp [List.disjoint_left, entrySources, hk]

/-- A mapping that is put in a block repeats a source just when the block has no mapping for its key
and another block of the scope has one. -/
theorem EntriesAt.nodup_sources_putMapping {scope : Scope} {es : List Entry}
    {put : List Entry → Document} (hp : d.EntriesAt scope es put) (m : Mapping)
    (hd : (d.sources .standard).Nodup) : ((put (putMapping m es)).sources .standard).Nodup ↔
      ¬ (d.Maps scope m.source ∧ ∀ e ∈ es, sameKey e.mapping.source m.source = false) := by
  obtain ⟨as, bs, hs⟩ := hp.sources_put (v := .standard)
  have hself := hp.put_self ▸ hs es
  obtain ⟨xs, e, ys, rfl, -, he, hput⟩ | ⟨hne, hput⟩ := putMapping_cases m es
  · -- The mapping takes the place of one for its key, so no source changes.
    have hkey : Vocabulary.standard.identify e.mapping.source =
        Vocabulary.standard.identify m.source := by simpa [sameKey] using he
    have hsame : (put (putMapping m (xs ++ e :: ys))).sources .standard = d.sources .standard := by
      rw [hs, hself, hput]
      simp [entrySources, hkey]
    rw [hsame]
    refine iff_of_true hd fun h => ?_
    cases (h.2 e (by simp)).symm.trans he
  · rw [hs, hput, nodup_entrySources_append (hself ▸ hd), ← hself]
    exact not_congr (and_iff_left hne).symm

/-- A layer that is renamed repeats a source just when a block of the scope that it comes into maps
one of its keys. -/
theorem LayersAt.nodup_sources_rename {parent : Option Nat} {xs ys : List LayerBlock}
    {l : LayerBlock} {put : List LayerBlock → Document}
    (hp : d.LayersAt parent (xs ++ l :: ys) put) (target : String)
    (hd : (d.sources .standard).Nodup) :
    ((put (xs ++ { l with name := target } :: ys)).sources .standard).Nodup ↔
      ¬ (l.name ≠ target ∧
        ∃ e ∈ l.entries, d.Maps (layerScope parent target) e.mapping.source) := by
  obtain ⟨as, bs, hs⟩ := hp.sources_put (v := .standard)
  have hbefore := (hp.put_self ▸ hs (xs ++ l :: ys)).trans (layerSources_split ..)
  have hafter := (hs (xs ++ { l with name := target } :: ys)).trans (layerSources_split ..)
  rw [hafter]
  by_cases hname : l.name = target
  · refine iff_of_true ?_ fun h => h.1 hname
    rw [← hname]
    rwa [hbefore] at hd
  · rw [nodup_entrySources_move (hbefore ▸ hd) (by simpa using hname), ← hbefore]
    simp [hname, Maps, scopeKey_layerScope]

end Document

namespace Edit

/-- The edit brings a key into a block that does not map it, while another block of the same scope
does: by a mapping that is put there, or by a layer that gets another name. -/
def Clashes (d : Document) : Edit → Prop
  | .setMapping scope m => ∃ es, d.entriesAt scope = .ok es ∧
    d.Maps scope m.source ∧ ∀ e ∈ es, sameKey e.mapping.source m.source = false
  | .renameLayer parent source target =>
    ∃ es, d.entriesAt (Document.layerScope parent source) = .ok es ∧
      source ≠ target ∧ ∃ e ∈ es, d.Maps (Document.layerScope parent target) e.mapping.source
  | _ => False

open Document

/-- What an edit makes of a document without repeated sources repeats one just when it clashes. -/
theorem Makes.nodup_sources_iff {d d' : Document} {e : Edit} (h : e.Makes d d')
    (hr : e.isReplace = false) (hd : (d.sources .standard).Nodup) :
    (d'.sources .standard).Nodup ↔ ¬ e.Clashes d := by
  cases h with
  -- Only these two bring a source; what is removed leaves a part of the sources, which is distinct.
  | setMapping hm hp => simp [hp.nodup_sources_putMapping _ hd, Clashes, hp.entriesAt_eq]
  | @renameLayer parent source target xs ys l put hp hl hx hn =>
    subst hl
    rw [sources_retarget, hp.nodup_sources_rename target hd]
    simp [Clashes, hp.entriesAt_eq hx]
  | @removeMapping scope source es put hp hex =>
    obtain ⟨as, bs, hs⟩ := hp.sources_put (v := .standard)
    refine iff_of_true (hd.sublist ?_) id
    rw [← hp.put_self, hs, hs]
    exact (((removeFirst_sublist _ es).map _).append_left as).append_right bs
  | @removeLayer parent name ls put hp hex =>
    obtain ⟨as, bs, hs⟩ := hp.sources_put (v := .standard)
    refine iff_of_true (hd.sublist ?_) id
    rw [← hp.put_self, hs, hs]
    exact (((removeFirst_sublist _ ls).flatMap _).append_left as).append_right bs
  | @removeDevice xs ys b h =>
    refine iff_of_true (hd.sublist ?_) id
    simp only [sources, h, List.flatMap_append, List.flatMap_cons]
    exact ((List.sublist_append_right _ _).append_left _).append_left _
  | @addLayer parent name ls put hp hn =>
    obtain ⟨as, bs, hs⟩ := hp.sources_put (v := .standard)
    rw [← hp.put_self, hs] at hd
    exact iff_of_true (by simpa [hs, layerSources, entrySources] using hd) id
  | addDevice pattern =>
    have hsame : ({ d with devices := d.devices ++ [{ pattern := pattern }] } : Document).sources
        .standard = d.sources .standard := by
      simp [sources, deviceSources, entrySources, layerSources]
    exact iff_of_true (hsame ▸ hd) id
  | replace document => cases hr

/-- Of a document in which the check reports no key that is mapped twice, an edit of a part makes
one in which it does just when the edit clashes. -/
theorem reportsDuplicate_apply_iff {d d' : Document} {e : Edit}
    (hd : ¬ d.ReportsDuplicate .standard) (hr : e.isReplace = false) (ha : e.apply d = .ok d') :
    d'.ReportsDuplicate .standard ↔ e.Clashes d := by
  rw [reportsDuplicate_iff, not_not] at hd
  rw [reportsDuplicate_iff, (makes_of_apply ha).nodup_sources_iff hr hd, not_not]

/-- A layer that gets the name of a layer in another device block with the same pattern. -/
theorem reportsDuplicate_renamed_layer :
    ∃ (d d' : Document) (e : Edit),
      d = { devices :=
        [{ pattern := "kbd", layers :=
            [{ name := "nav", entries := [{ mapping := .simple "Escape" "A" }] }] },
          { pattern := "kbd", layers :=
            [{ name := "sym", entries := [{ mapping := .simple "VK_Esc" "B" }] }] }] } ∧
      e = .renameLayer (some 0) "nav" "sym" ∧ ¬ d.ReportsDuplicate .standard ∧
      e.isReplace = false ∧ e.apply d = .ok d' ∧ e.Clashes d ∧
      (d'.ReportsDuplicate .standard ↔ e.Clashes d) := by
  let d : Document := { devices :=
    [{ pattern := "kbd", layers :=
        [{ name := "nav", entries := [{ mapping := .simple "Escape" "A" }] }] },
      { pattern := "kbd", layers :=
        [{ name := "sym", entries := [{ mapping := .simple "VK_Esc" "B" }] }] }] }
  have hd : ¬ d.ReportsDuplicate .standard := by
    rw [reportsDuplicate_iff, not_not]
    decide +kernel
  have hmaps : d.Maps (.deviceLayer 0 "sym") "Escape" := by
    unfold Maps
    decide +kernel
  have hclash : (Edit.renameLayer (some 0) "nav" "sym").Clashes d :=
    ⟨_, rfl, by decide, _, List.mem_cons_self, hmaps⟩
  have ha := reportsDuplicate_apply_iff (e := .renameLayer (some 0) "nav" "sym") hd rfl rfl
  exact ⟨d, _, _, rfl, rfl, hd, rfl, rfl, hclash, ha⟩

/-- An edit of one of two device blocks with the same pattern can make the check report a key that
is mapped twice. -/
theorem not_forall_edit_keeps_sources_distinct :
    ¬ ∀ (d d' : Document) (e : Edit), ¬ d.ReportsDuplicate .standard → e.isReplace = false →
      e.apply d = .ok d' → ¬ d'.ReportsDuplicate .standard := by
  intro h
  refine h { devices :=
      [{ pattern := "kbd", entries := [{ mapping := .simple "H" "Left" }] }, { pattern := "kbd" }] }
    _ (.setMapping (.device 1) (.simple "H" "Right")) ?_ rfl rfl ?_
  · rw [reportsDuplicate_iff, not_not]
    decide +kernel
  · rw [reportsDuplicate_iff]
    decide +kernel

end Edit

end KeyRemap
