import KeyRemap.Validation
import Mathlib.Data.List.Basic
import Mathlib.Data.List.Nodup

/-!
# Keys that are mapped twice

The sources of a document are the keys that its entries map, each with the scope of its entry.
Blocks with one pattern or name count as one scope, and names of one key as one key. The check of a
document reports a key that is mapped twice just when a source is repeated
(`Document.reportsDuplicate_iff`).
-/
namespace KeyRemap

/-- The scope of an entry and what its key means. -/
def Site.source? : Site → Option (ScopeKey × String)
  | .entry _ key identity _ => some (key, identity)
  | _ => none

/-- The entry of a site, with its scope. -/
def Site.scoped? : Site → Option (ScopeKey × Entry)
  | .entry _ key _ e => some (key, e)
  | _ => none

namespace Document

variable (v : Vocabulary)

/-- The sources of the entries of a block. -/
def entrySources (key : ScopeKey) (entries : List Entry) : List (ScopeKey × String) :=
  entries.map fun e => (key, v.identify e.mapping.source)

/-- The sources of the layers of one parent. -/
def layerSources (pattern : Option String) (layers : List LayerBlock) :
    List (ScopeKey × String) :=
  layers.flatMap fun l => entrySources v ⟨pattern, some l.name⟩ l.entries

/-- The sources of a device block. -/
def deviceSources (b : DeviceBlock) : List (ScopeKey × String) :=
  entrySources v ⟨some b.pattern, none⟩ b.entries ++ layerSources v (some b.pattern) b.layers

/-- The sources of a document in its order. -/
def sources (d : Document) : List (ScopeKey × String) :=
  entrySources v {} d.entries ++ layerSources v none d.layers ++
    d.devices.flatMap (deviceSources v)

/-- The entries of the layers of one parent, each with its scope. -/
def layerEntries (pattern : Option String) (layers : List LayerBlock) : List (ScopeKey × Entry) :=
  layers.flatMap fun l => l.entries.map (⟨pattern, some l.name⟩, ·)

/-- The entries of a device block, each with its scope. -/
def deviceEntries (b : DeviceBlock) : List (ScopeKey × Entry) :=
  b.entries.map (⟨some b.pattern, none⟩, ·) ++ layerEntries (some b.pattern) b.layers

/-- The entries of a document in its order, each with its scope. -/
def scopedEntries (d : Document) : List (ScopeKey × Entry) :=
  d.entries.map (⟨none, none⟩, ·) ++ layerEntries none d.layers ++ d.devices.flatMap deviceEntries

/-- What an entry maps: a key, by what its name means, in a scope. -/
def sourceOf (p : ScopeKey × Entry) : ScopeKey × String := (p.1, v.identify p.2.mapping.source)

/-- The check reports a key that is mapped twice. -/
def ReportsDuplicate (d : Document) : Prop :=
  ∃ i ∈ d.issues v, i.finding.kind = .duplicateSource

variable {v}

@[simp] theorem filterMap_entrySites (scope : Scope) (key : ScopeKey) (entries : List Entry) :
    (entrySites v scope key entries).filterMap Site.source? = entrySources v key entries := by
  simp [entrySites, entrySources, List.filterMap_map, Function.comp_def, Site.source?]

@[simp] theorem filterMap_layerSites (parent : Option Nat) (pattern : Option String)
    (layers : List LayerBlock) : (layerSites v parent pattern layers).filterMap Site.source? =
      layerSources v pattern layers := by
  simp [layerSites, layerSources, List.filterMap_flatMap, List.filterMap_cons, Site.source?]

theorem filterMap_deviceSites (index : Nat) (b : DeviceBlock) :
    (deviceSites v index b).filterMap Site.source? = deviceSources v b := by
  simp [deviceSites, deviceSources, List.filterMap_cons, Site.source?]

/-- The sources of device blocks do not depend on their indices. -/
theorem flatMap_zipIdx_deviceSources (bs : List DeviceBlock) :
    (bs.zipIdx.flatMap fun p => deviceSources v p.1) = bs.flatMap (deviceSources v) := by
  rw [← List.flatMap_map, List.zipIdx_map_fst]

/-- The sources are those of the sites that the check goes through. -/
theorem filterMap_sites (d : Document) : (d.sites v).filterMap Site.source? = d.sources v := by
  simp [sites, sources, List.filterMap_flatMap, filterMap_deviceSites,
    flatMap_zipIdx_deviceSources]

theorem map_sourceOf (key : ScopeKey) (entries : List Entry) :
    (entries.map (key, ·)).map (sourceOf v) = entrySources v key entries := by
  rw [List.map_map]
  rfl

theorem map_sourceOf_layerEntries (pattern : Option String) (layers : List LayerBlock) :
    (layerEntries pattern layers).map (sourceOf v) = layerSources v pattern layers := by
  simp only [layerEntries, layerSources, List.map_flatMap, map_sourceOf]

theorem map_sourceOf_deviceEntries (b : DeviceBlock) :
    (deviceEntries b).map (sourceOf v) = deviceSources v b := by
  rw [deviceEntries, List.map_append, map_sourceOf, map_sourceOf_layerEntries, deviceSources]

/-- The sources of a document are what its entries map. -/
theorem map_sourceOf_scopedEntries (d : Document) :
    d.scopedEntries.map (sourceOf v) = d.sources v := by
  simp only [scopedEntries, List.map_append, List.map_flatMap, map_sourceOf,
    map_sourceOf_layerEntries, map_sourceOf_deviceEntries]
  rfl

theorem filterMap_scoped?_entrySites (scope : Scope) (key : ScopeKey) (es : List Entry) :
    (entrySites v scope key es).filterMap Site.scoped? = es.map (key, ·) := by
  rw [entrySites, List.filterMap_map, ← List.filterMap_eq_map]
  rfl

theorem filterMap_scoped?_layerSites (parent : Option Nat) (pattern : Option String)
    (ls : List LayerBlock) : (layerSites v parent pattern ls).filterMap Site.scoped? =
      layerEntries pattern ls := by
  simp [layerSites, layerEntries, List.filterMap_flatMap, List.filterMap_cons, Site.scoped?,
    filterMap_scoped?_entrySites]

theorem filterMap_scoped?_deviceSites (index : Nat) (b : DeviceBlock) :
    (deviceSites v index b).filterMap Site.scoped? = deviceEntries b := by
  simp [deviceSites, deviceEntries, List.filterMap_cons, Site.scoped?,
    filterMap_scoped?_entrySites, filterMap_scoped?_layerSites]

/-- The check goes through the entries in the order of the document. -/
theorem filterMap_scoped?_sites (v : Vocabulary) (d : Document) :
    (d.sites v).filterMap Site.scoped? = d.scopedEntries := by
  have hdevices : (d.devices.zipIdx.flatMap fun p => deviceEntries p.1) =
      d.devices.flatMap deviceEntries := by
    rw [← List.flatMap_map, List.zipIdx_map_fst]
  simp only [sites, scopedEntries, List.filterMap_append, List.filterMap_flatMap,
    filterMap_scoped?_entrySites, filterMap_scoped?_layerSites, filterMap_scoped?_deviceSites,
    hdevices]

end Document

variable {v : Vocabulary} {d : Document} {earlier : List Site}

theorem isSome_firstSource? {key : ScopeKey} {identity : String} :
    (firstSource? key identity earlier).isSome ↔
      (key, identity) ∈ earlier.filterMap Site.source? := by
  simp only [firstSource?, List.findSome?_isSome_iff, List.mem_filterMap]
  refine exists_congr fun s => and_congr_right fun _ => ?_
  cases s with
  | entry scope k i e => by_cases h : k = key ∧ i = identity <;> simp [Site.source?, h]
  | _ => simp [Site.source?]

theorem kind_ne_of_patternFinding? {pattern : String} {f : Finding} {kind : IssueKind}
    (hk : kind ≠ .invalidPattern ∧ kind ≠ .duplicatePattern)
    (h : f ∈ patternFinding? earlier pattern) : f.kind ≠ kind := by
  unfold patternFinding? at h
  split at h
  · cases h; exact hk.1.symm
  · split at h
    · cases h; exact hk.1.symm
    · obtain ⟨p, -, rfl⟩ := Option.map_eq_some_iff.1 h
      exact hk.2.symm

theorem kind_ne_of_layerNameFinding? {parent : Option Nat} {name : String} {f : Finding}
    {kind : IssueKind} (hk : kind ≠ .invalidLayerName ∧ kind ≠ .duplicateLayer)
    (h : f ∈ layerNameFinding? earlier parent name) : f.kind ≠ kind := by
  unfold layerNameFinding? at h
  split at h
  · cases h; exact hk.1.symm
  · obtain ⟨p, -, rfl⟩ := Option.map_eq_some_iff.1 h
    exact hk.2.symm

theorem kind_ne_of_mem_keyFindings {m : Mapping} {f : Finding} {kind : IssueKind}
    (hk : kind ≠ .unknownKey) (h : f ∈ keyFindings v m) : f.kind ≠ kind := by
  obtain ⟨⟨role, name⟩, -, hf⟩ := List.mem_filterMap.1 h
  dsimp only at hf
  split at hf
  · cases hf
  · cases hf; exact hk.symm

theorem kind_ne_of_mappingFinding? {layers : List String} {m : Mapping} {f : Finding}
    (h : f ∈ mappingFinding? layers m) : f.kind ≠ .duplicateSource := by
  unfold mappingFinding? at h
  split at h
  · cases h
  all_goals
    split at h <;> cases h
    simp [Finding.kind]

/-- The issues of a site report a duplicate just when its source is that of a site before it. -/
theorem Site.reportsDuplicate_iff (s : Site) :
    (∃ i ∈ s.issues v d earlier, i.finding.kind = .duplicateSource) ↔
      ∃ source ∈ s.source?, source ∈ earlier.filterMap Site.source? := by
  cases s with
  | device block =>
    simpa [issues, source?] using fun f hf => kind_ne_of_patternFinding? (by decide) hf
  | layer parent block =>
    simpa [issues, source?] using fun f hf => kind_ne_of_layerNameFinding? (by decide) hf
  | entry scope key identity e =>
    simp only [issues, source?, Option.mem_some_iff, exists_eq_left', ← isSome_firstSource?]
    constructor
    · rintro ⟨i, hi, hk⟩
      obtain ⟨f, hf, rfl⟩ := List.mem_map.1 hi
      simp only [List.mem_append, Option.mem_toList] at hf
      rcases hf with (hf | hf) | hf
      · exact absurd hk (kind_ne_of_mem_keyFindings (by decide) hf)
      · exact absurd hk (kind_ne_of_mappingFinding? hf)
      · obtain ⟨p, hp, -⟩ := Option.map_eq_some_iff.1 hf
        rw [hp]
        rfl
    · intro h
      obtain ⟨p, hp⟩ := Option.isSome_iff_exists.1 h
      simp only [hp, Option.map_some, Option.toList_some, List.map_append, List.map_cons]
      exact ⟨_, List.mem_append_right _ List.mem_cons_self, rfl⟩

/-- The source of a site is that of a site before it just when it is repeated then. -/
theorem nodup_filterMap_source?_append_singleton (he : (earlier.filterMap Site.source?).Nodup)
    (s : Site) : ((earlier ++ [s]).filterMap Site.source?).Nodup ↔
      ¬ ∃ source ∈ s.source?, source ∈ earlier.filterMap Site.source? := by
  cases hs : s.source? with
  | none => simpa [hs] using he
  | some source => simp [hs, List.nodup_append', he]

/-- The issues of sites behind others, whose sources differ, report a duplicate just when a source
is repeated. -/
theorem reportsDuplicate_issuesAfter_iff (he : (earlier.filterMap Site.source?).Nodup)
    (ss : List Site) : (∃ i ∈ issuesAfter v d earlier ss, i.finding.kind = .duplicateSource) ↔
      ¬ ((earlier ++ ss).filterMap Site.source?).Nodup := by
  induction ss generalizing earlier with
  | nil => simpa [issuesAfter] using he
  | cons s ss ih =>
    have hstep := nodup_filterMap_source?_append_singleton he s
    rw [← s.reportsDuplicate_iff (v := v) (d := d)] at hstep
    simp only [issuesAfter, List.mem_append, or_and_right, exists_or]
    rw [List.append_cons earlier s ss]
    -- A source that is repeated here stays repeated, whatever follows.
    by_cases hn : ((earlier ++ [s]).filterMap Site.source?).Nodup
    · rw [ih hn, or_iff_right (hstep.1 hn)]
    · refine iff_of_true (.inl (not_not.1 (mt hstep.2 hn))) fun hall => hn ?_
      exact hall.sublist ((List.sublist_append_left _ _).filterMap _)

/-- The check of a document reports a key that is mapped twice just when a source is repeated. -/
theorem Document.reportsDuplicate_iff :
    d.ReportsDuplicate v ↔ ¬ (d.sources v).Nodup := by
  rw [← Document.filterMap_sites]
  exact reportsDuplicate_issuesAfter_iff (by simp) (d.sites v)

end KeyRemap
