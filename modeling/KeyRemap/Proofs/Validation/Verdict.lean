import KeyRemap.Proofs.Script.Written
import KeyRemap.Proofs.Validation.Sources
import Mathlib.Data.List.Nodup

/-!
# What the check of a document finds

A document is usable if its keys are known, its timeouts and names can be used, its layers are
declared and no scope maps a key twice (`Document.Usable`). The check finds no error just in usable
documents, and nothing at all just in those that repeat no pattern and no layer besides
(`Document.issues_exact`). What it says of a site depends on the sites in front of it, and only in
that nothing may be repeated, so a whole run comes to what the sites are and to three lists without
duplicates.
-/
namespace KeyRemap

open Text

/-- A mapping that can be used where some layers are declared. -/
structure Mapping.Usable (v : Vocabulary) (layers : List String) (m : Mapping) : Prop where
  keys : ∀ r ∈ m.keyRefs, v.knows r.2 = true
  timeout : ∀ source tap hold timeout, m = .tapHold source tap hold timeout →
    1 ≤ timeout ∧ timeout ≤ 10000
  sequence : m.isEmptySequence = false
  switch : ∀ source layer, m = .layerSwitch source layer → layer ∈ layers

namespace Document

variable (v : Vocabulary)

/-- The entries of a scope: those of all blocks that have its pattern and its layer name. -/
def entriesOf (d : Document) : ScopeKey → List Entry
  | ⟨none, none⟩ => d.entries
  | ⟨none, some name⟩ => (d.layers.filter (·.name = name)).flatMap (·.entries)
  | ⟨some pattern, none⟩ => (d.devices.filter (·.pattern = pattern)).flatMap (·.entries)
  | ⟨some pattern, some name⟩ =>
    (((d.devices.filter (·.pattern = pattern)).flatMap (·.layers)).filter
      (·.name = name)).flatMap (·.entries)

/-- A document that can be used with the keys of a vocabulary. -/
structure Usable (d : Document) : Prop where
  mappings : ∀ e ∈ d.allEntries, e.mapping.Usable v (d.allLayers.map (·.name))
  patterns : ∀ b ∈ d.devices, b.pattern ≠ "" ∧ ∀ c ∈ b.pattern.toList, isControl c = false
  names : ∀ l ∈ d.allLayers, l.name ≠ ""
  sources : ∀ key, ((d.entriesOf key).map fun e => v.identify e.mapping.source).Nodup

/-- A document that repeats no pattern, and no layer of one parent. -/
structure Unrepeated (d : Document) : Prop where
  patterns : (d.devices.map (·.pattern)).Nodup
  layers : (d.layers.map (·.name)).Nodup
  nested : ∀ b ∈ d.devices, (b.layers.map (·.name)).Nodup

end Document

namespace Site

/-- A site that can be used, whatever stands in front of it. -/
def Usable (v : Vocabulary) (layers : List String) : Site → Prop
  | .device block => block.pattern ≠ "" ∧ ∀ c ∈ block.pattern.toList, isControl c = false
  | .layer _ block => block.name ≠ ""
  | .entry _ _ _ e => e.mapping.Usable v layers

@[simp] theorem usable_device {v : Vocabulary} {layers : List String} {block : DeviceBlock} :
    (device block).Usable v layers ↔
      block.pattern ≠ "" ∧ ∀ c ∈ block.pattern.toList, isControl c = false := .rfl

@[simp] theorem usable_layer {v : Vocabulary} {layers : List String} {parent : Option Nat}
    {block : LayerBlock} : (layer parent block).Usable v layers ↔ block.name ≠ "" := .rfl

@[simp] theorem usable_entry {v : Vocabulary} {layers : List String} {scope : Scope}
    {key : ScopeKey} {identity : String} {e : Entry} :
    (entry scope key identity e).Usable v layers ↔ e.mapping.Usable v layers := .rfl

/-- The pattern of a device block. -/
def pattern? : Site → Option String
  | .device block => some block.pattern
  | _ => none

/-- The name of a layer with its parent. -/
def layer? : Site → Option (Option Nat × String)
  | .layer parent block => some (parent, block.name)
  | _ => none

/-- What the site is called differs from what the sites in front of it are called. -/
def Fresh {α : Type} (f : Site → Option α) (earlier : List Site) (s : Site) : Prop :=
  ∀ a ∈ f s, a ∉ earlier.filterMap f

end Site

section Lists

variable {α β : Type}

/-- A list of names is without duplicates if each is new where it stands. -/
theorem nodup_filterMap_iff (f : α → Option β) (xs : List α) : (xs.filterMap f).Nodup ↔
    ∀ before x behind, xs = before ++ x :: behind → ∀ b ∈ f x, b ∉ before.filterMap f := by
  constructor
  · rintro h before x behind rfl b hb hmem
    rw [List.filterMap_append, List.filterMap_cons_some hb] at h
    exact (List.nodup_append'.1 h).2.2 hmem List.mem_cons_self
  · intro h
    induction xs using List.reverseRecOn with
    | nil => exact List.nodup_nil
    | append_singleton xs x ih =>
      have hxs : (xs.filterMap f).Nodup := ih fun before y behind he =>
        h before y (behind ++ [x]) (by simp [he])
      have hx := h xs x [] rfl
      cases hf : f x with
      | none => simpa [hf] using hxs
      | some b => simpa [hf, List.nodup_append', hxs] using hx b hf

/-- Pairs are without duplicates if the second parts of those with one first part are. -/
theorem nodup_iff_forall_nodup_filter [DecidableEq α] (xs : List (α × β)) :
    xs.Nodup ↔ ∀ a, ((xs.filter (·.1 = a)).map (·.2)).Nodup := by
  constructor
  · intro h a
    refine (h.filter _).map_on fun x hx y hy he => ?_
    have hx := (List.mem_filter.1 hx).2
    have hy := (List.mem_filter.1 hy).2
    rw [decide_eq_true_eq] at hx hy
    exact Prod.ext (hx.trans hy.symm) he
  · intro h
    rw [List.nodup_iff_sublist]
    intro x hx
    have := (hx.filter (·.1 = x.1)).map (·.2)
    exact List.nodup_iff_sublist.1 (h x.1) x.2 (by simpa using this)

theorem forall_mem_zipIdx_fst {P : α → Prop} {xs : List α} :
    (∀ p ∈ xs.zipIdx, P p.1) ↔ ∀ x ∈ xs, P x := by
  have := List.forall_mem_map (f := Prod.fst) (l := xs.zipIdx) (P := P)
  rwa [List.zipIdx_map_fst, Iff.comm] at this

theorem flatMap_ite (p : α → Prop) [DecidablePred p] (f : α → List β) (xs : List α) :
    (xs.flatMap fun x => if p x then f x else []) = (xs.filter (p ·)).flatMap f := by
  induction xs with
  | nil => rfl
  | cons x xs ih => by_cases hx : p x <;> simp [hx, ih]

end Lists

variable {v : Vocabulary} {d : Document} {earlier : List Site}

theorem isSome_firstPattern? {pattern : String} :
    (firstPattern? pattern earlier).isSome ↔ pattern ∈ earlier.filterMap Site.pattern? := by
  simp only [firstPattern?, List.findSome?_isSome_iff, List.mem_filterMap]
  refine exists_congr fun s => and_congr_right fun _ => ?_
  cases s with
  | device block => by_cases h : block.pattern = pattern <;> simp [Site.pattern?, h]
  | _ => simp [Site.pattern?]

theorem isSome_firstLayer? {parent : Option Nat} {name : String} :
    (firstLayer? parent name earlier).isSome ↔
      (parent, name) ∈ earlier.filterMap Site.layer? := by
  simp only [firstLayer?, List.findSome?_isSome_iff, List.mem_filterMap]
  refine exists_congr fun s => and_congr_right fun _ => ?_
  cases s with
  | layer p block => by_cases h : p = parent ∧ block.name = name <;> simp [Site.layer?, h]
  | _ => simp [Site.layer?]

theorem keyFindings_eq_nil_iff {m : Mapping} :
    keyFindings v m = [] ↔ ∀ r ∈ m.keyRefs, v.knows r.2 = true := by
  simp [keyFindings, List.filterMap_eq_nil_iff]

theorem mappingFinding?_eq_none_iff {layers : List String} {m : Mapping} :
    mappingFinding? layers m = none ↔
      (∀ source tap hold timeout, m = .tapHold source tap hold timeout →
        1 ≤ timeout ∧ timeout ≤ 10000) ∧
      m.isEmptySequence = false ∧
      ∀ source layer, m = .layerSwitch source layer → layer ∈ layers := by
  cases m with
  | simple source target => simp [mappingFinding?, Mapping.isEmptySequence]
  | tapHold source tap hold timeout =>
    have hrange : mappingFinding? layers (.tapHold source tap hold timeout) = none ↔
        minTimeout ≤ timeout ∧ timeout ≤ maxTimeout := by
      rw [mappingFinding?]
      split <;> simp [*]
    rw [hrange]
    refine ⟨fun h => ⟨?_, rfl, by simp⟩, fun h => h.1 source tap hold timeout rfl⟩
    rintro _ _ _ _ ⟨⟩
    exact h
  | sequence source keys => cases keys <;> simp [mappingFinding?, Mapping.isEmptySequence]
  | layerSwitch source layer => simp [mappingFinding?, Mapping.isEmptySequence]

/-- Nothing is found in a mapping just when it can be used. -/
theorem findings_eq_nil_iff {layers : List String} {m : Mapping} :
    (keyFindings v m = [] ∧ mappingFinding? layers m = none) ↔ m.Usable v layers := by
  rw [keyFindings_eq_nil_iff, mappingFinding?_eq_none_iff]
  exact ⟨fun ⟨hk, ht, hs, hl⟩ => ⟨hk, ht, hs, hl⟩, fun ⟨hk, ht, hs, hl⟩ => ⟨hk, ht, hs, hl⟩⟩

theorem patternFinding?_eq_none_iff {pattern : String} : patternFinding? earlier pattern = none ↔
    (pattern ≠ "" ∧ ∀ c ∈ pattern.toList, isControl c = false) ∧
      pattern ∉ earlier.filterMap Site.pattern? := by
  rw [← isSome_firstPattern?, Bool.not_eq_true, Option.isSome_eq_false_iff,
    Option.isNone_iff_eq_none]
  unfold patternFinding?
  split
  · simp_all
  · split
    · simp_all
    · simp_all

theorem layerNameFinding?_eq_none_iff {parent : Option Nat} {name : String} :
    layerNameFinding? earlier parent name = none ↔
      name ≠ "" ∧ (parent, name) ∉ earlier.filterMap Site.layer? := by
  rw [← isSome_firstLayer?, Bool.not_eq_true, Option.isSome_eq_false_iff,
    Option.isNone_iff_eq_none]
  unfold layerNameFinding?
  split
  · simp_all
  · simp_all

/-- A repeated pattern is no error. -/
theorem errorFree_patternFinding? {pattern : String} :
    (∀ f, patternFinding? earlier pattern = some f → f.severity ≠ .error) ↔
      pattern ≠ "" ∧ ∀ c ∈ pattern.toList, isControl c = false := by
  unfold patternFinding?
  split
  · simp_all [Finding.severity]
  · split
    · simp_all [Finding.severity]
    · simp_all [Finding.severity]

/-- A repeated layer is no error. -/
theorem errorFree_layerNameFinding? {parent : Option Nat} {name : String} :
    (∀ f, layerNameFinding? earlier parent name = some f → f.severity ≠ .error) ↔ name ≠ "" := by
  unfold layerNameFinding?
  split
  · simp_all [Finding.severity]
  · simp_all [Finding.severity]

namespace Site

/-- Nothing is found at a site just when it can be used and repeats nothing. -/
theorem issues_eq_nil_iff (s : Site) : s.issues v d earlier = [] ↔
    s.Usable v (d.allLayers.map (·.name)) ∧ s.Fresh source? earlier ∧ s.Fresh pattern? earlier ∧
      s.Fresh layer? earlier := by
  cases s with
  | device block =>
    simp [issues, Fresh, source?, pattern?, layer?, patternFinding?_eq_none_iff]
  | layer parent block =>
    simp [issues, Fresh, source?, pattern?, layer?, layerNameFinding?_eq_none_iff]
  | entry scope key identity e =>
    have hfirst : firstSource? key identity earlier = none ↔
        (key, identity) ∉ earlier.filterMap source? := by
      rw [← isSome_firstSource?, Bool.not_eq_true, Option.isSome_eq_false_iff,
        Option.isNone_iff_eq_none]
    simp [issues, Fresh, source?, pattern?, layer?, hfirst, ← findings_eq_nil_iff, and_assoc]

/-- All that is found at an entry is an error. -/
theorem isError_of_mem_entry {scope : Scope} {key : ScopeKey} {identity : String} {e : Entry}
    {i : Issue} (h : i ∈ (entry scope key identity e).issues v d earlier) : i.isError = true := by
  obtain ⟨f, hf, rfl⟩ := List.mem_map.1 h
  simp only [List.mem_append, Option.mem_toList] at hf
  rcases hf with (hf | hf) | hf
  · obtain ⟨⟨role, name⟩, -, hf⟩ := List.mem_filterMap.1 hf
    dsimp only at hf
    split at hf <;> cases hf
    rfl
  · unfold mappingFinding? at hf
    split at hf
    · cases hf
    all_goals
      split at hf <;> cases hf
      rfl
  · obtain ⟨p, -, rfl⟩ := Option.map_eq_some_iff.1 hf
    rfl

/-- No error is found at a site just when it can be used and its key is not mapped before. -/
theorem errorFree_iff (s : Site) : (∀ i ∈ s.issues v d earlier, i.isError = false) ↔
    s.Usable v (d.allLayers.map (·.name)) ∧ s.Fresh source? earlier := by
  cases s with
  | device block =>
    have := @errorFree_patternFinding? earlier block.pattern
    simpa [issues, Fresh, source?, Issue.isError] using this
  | layer parent block =>
    have := @errorFree_layerNameFinding? earlier parent block.name
    simpa [issues, Fresh, source?, Issue.isError] using this
  | entry scope key identity e =>
    have hnil : (∀ i ∈ (entry scope key identity e).issues v d earlier, i.isError = false) ↔
        (entry scope key identity e).issues v d earlier = [] := by
      rw [List.eq_nil_iff_forall_not_mem]
      refine forall_congr' fun i => ⟨fun h hi => ?_, fun h hi => absurd hi h⟩
      simpa [isError_of_mem_entry hi] using h hi
    rw [hnil, issues_eq_nil_iff]
    simp [Fresh, pattern?, layer?]

end Site

/-- What holds of the issues of sites holds at each of them, behind those in front of it. -/
theorem forall_mem_issuesAfter_iff {P : Issue → Prop} {ss : List Site} :
    (∀ i ∈ issuesAfter v d earlier ss, P i) ↔ ∀ before s behind, ss = before ++ s :: behind →
      ∀ i ∈ s.issues v d (earlier ++ before), P i := by
  induction ss generalizing earlier with
  | nil => simp [issuesAfter]
  | cons s ss ih =>
    rw [issuesAfter, List.forall_mem_append, ih]
    constructor
    · rintro ⟨hs, hss⟩ before t behind he
      cases before with
      | nil =>
        obtain ⟨rfl, -⟩ := List.cons.inj he
        simpa using hs
      | cons u before =>
        obtain ⟨rfl, hss'⟩ := List.cons.inj he
        simpa using hss before t behind hss'
    · intro h
      refine ⟨by simpa using h [] s ss rfl, fun before t behind he => ?_⟩
      simpa using h (s :: before) t behind (by rw [he, List.cons_append])

/-- What holds of each site and of nothing else. -/
theorem forall_split_iff {α : Type} {P : α → Prop} {xs : List α} :
    (∀ before x behind, xs = before ++ x :: behind → P x) ↔ ∀ x ∈ xs, P x := by
  constructor
  · intro h x hx
    obtain ⟨before, behind, he⟩ := List.append_of_mem hx
    exact h before x behind he
  · rintro h before x behind rfl
    exact h x (by simp)

namespace Document

/-- The check finds no error just when all sites can be used and no source is repeated. -/
theorem errorFree_iff_sites : (∀ i ∈ d.issues v, i.isError = false) ↔
    (∀ s ∈ d.sites v, s.Usable v (d.allLayers.map (·.name))) ∧
      ((d.sites v).filterMap Site.source?).Nodup := by
  rw [issues, forall_mem_issuesAfter_iff, nodup_filterMap_iff, ← forall_split_iff]
  simp only [List.nil_append, Site.errorFree_iff, Site.Fresh, imp_and, forall_and]

/-- The check finds nothing just when besides no pattern and no layer of a parent is repeated. -/
theorem issues_eq_nil_iff_sites : d.issues v = [] ↔
    ((∀ s ∈ d.sites v, s.Usable v (d.allLayers.map (·.name))) ∧
      ((d.sites v).filterMap Site.source?).Nodup) ∧
      ((d.sites v).filterMap Site.pattern?).Nodup ∧ ((d.sites v).filterMap Site.layer?).Nodup := by
  have hsplit : d.issues v = [] ↔ ∀ before s behind, d.sites v = before ++ s :: behind →
      s.issues v d before = [] := by
    simpa [issues, ← List.eq_nil_iff_forall_not_mem] using
      @forall_mem_issuesAfter_iff v d [] (fun _ => False) (d.sites v)
  simp only [hsplit, nodup_filterMap_iff, ← @forall_split_iff _ _ (d.sites v),
    Site.issues_eq_nil_iff, Site.Fresh, imp_and, forall_and, and_assoc]

theorem filterMap_pattern?_sites (d : Document) :
    (d.sites v).filterMap Site.pattern? = d.devices.map (·.pattern) := by
  have hentries (scope : Scope) (key : ScopeKey) (es : List Entry) :
      (entrySites v scope key es).filterMap Site.pattern? = [] := by
    simp [entrySites, Site.pattern?]
  have hlayers (parent : Option Nat) (pattern : Option String) (ls : List LayerBlock) :
      (layerSites v parent pattern ls).filterMap Site.pattern? = [] := by
    simp [layerSites, List.filterMap_flatMap, List.filterMap_cons, Site.pattern?, hentries]
  have hdevice (index : Nat) (b : DeviceBlock) :
      (deviceSites v index b).filterMap Site.pattern? = [b.pattern] := by
    simp [deviceSites, hentries, hlayers, Site.pattern?]
  have hdevices : (d.devices.zipIdx.flatMap fun p => [p.1.pattern]) =
      d.devices.map (·.pattern) := by
    have hfst : d.devices.map (·.pattern) = (d.devices.zipIdx.map (·.1)).map (·.pattern) := by
      rw [List.zipIdx_map_fst]
    rw [hfst, List.map_map, List.map_eq_flatMap]
    rfl
  simpa [sites, List.filterMap_flatMap, hentries, hlayers, hdevice] using hdevices

theorem filterMap_layer?_sites (d : Document) : (d.sites v).filterMap Site.layer? =
    d.layers.map (fun l => (none, l.name)) ++
      d.devices.zipIdx.flatMap fun p => p.1.layers.map fun l => (some p.2, l.name) := by
  have hentries (scope : Scope) (key : ScopeKey) (es : List Entry) :
      (entrySites v scope key es).filterMap Site.layer? = [] := by
    simp [entrySites, Site.layer?]
  have hlayers (parent : Option Nat) (pattern : Option String) (ls : List LayerBlock) :
      (layerSites v parent pattern ls).filterMap Site.layer? =
        ls.map fun l => (parent, l.name) := by
    simp [layerSites, List.filterMap_flatMap, Site.layer?, hentries, List.map_eq_flatMap]
  have hdevice (index : Nat) (b : DeviceBlock) : (deviceSites v index b).filterMap Site.layer? =
      b.layers.map fun l => (some index, l.name) := by
    simp [deviceSites, List.filterMap_cons, hentries, hlayers, Site.layer?]
  simp [sites, List.filterMap_flatMap, hentries, hlayers, hdevice]

/-- The sites can be used just when the blocks and entries of the document can. -/
theorem forall_usable_sites_iff {layers : List String} :
    (∀ s ∈ d.sites v, s.Usable v layers) ↔ (∀ e ∈ d.allEntries, e.mapping.Usable v layers) ∧
      (∀ b ∈ d.devices, b.pattern ≠ "" ∧ ∀ c ∈ b.pattern.toList, isControl c = false) ∧
      ∀ l ∈ d.allLayers, l.name ≠ "" := by
  have hentries (scope : Scope) (key : ScopeKey) (es : List Entry) :
      (∀ s ∈ entrySites v scope key es, s.Usable v layers) ↔
        ∀ e ∈ es, e.mapping.Usable v layers := by
    simp [entrySites]
  have hlayers (parent : Option Nat) (pattern : Option String) (ls : List LayerBlock) :
      (∀ s ∈ layerSites v parent pattern ls, s.Usable v layers) ↔
        ∀ l ∈ ls, l.name ≠ "" ∧ ∀ e ∈ l.entries, e.mapping.Usable v layers := by
    simp only [layerSites, List.forall_mem_flatMap, List.forall_mem_cons, hentries,
      Site.usable_layer]
  have hdevices : (∀ p ∈ d.devices.zipIdx, ∀ s ∈ deviceSites v p.2 p.1, s.Usable v layers) ↔
      ∀ b ∈ d.devices, (b.pattern ≠ "" ∧ ∀ c ∈ b.pattern.toList, isControl c = false) ∧
        (∀ e ∈ b.entries, e.mapping.Usable v layers) ∧
        ∀ l ∈ b.layers, l.name ≠ "" ∧ ∀ e ∈ l.entries, e.mapping.Usable v layers := by
    rw [← @forall_mem_zipIdx_fst _ _ d.devices]
    simp only [deviceSites, List.forall_mem_append, List.forall_mem_cons, hentries, hlayers,
      Site.usable_device, and_assoc]
  simp only [sites, List.forall_mem_append, List.forall_mem_flatMap, hentries, hlayers, hdevices,
    forall_mem_allEntries, allLayers]
  simp only [imp_and, forall_and]
  tauto

/-- The names of layers differ in each parent just when they do with their parents. -/
theorem nodup_layers_iff (d : Document) : ((d.sites v).filterMap Site.layer?).Nodup ↔
    (d.layers.map (·.name)).Nodup ∧ ∀ b ∈ d.devices, (b.layers.map (·.name)).Nodup := by
  have hinj (parent : Option Nat) (ls : List LayerBlock) :
      (ls.map fun l => (parent, l.name)).Nodup ↔ (ls.map (·.name)).Nodup := by
    have := List.nodup_map_iff (f := Prod.mk parent) (l := ls.map (·.name))
      fun a b h => (Prod.mk.inj h).2
    simpa [Function.comp_def] using this
  have hapart : d.devices.zipIdx.Pairwise fun p q =>
      List.Disjoint (p.1.layers.map fun l => (some p.2, l.name))
        (q.1.layers.map fun l => (some q.2, l.name)) := by
    have hne : d.devices.zipIdx.Pairwise fun p q => p.2 ≠ q.2 := by
      rw [← List.pairwise_map (f := Prod.snd) (R := (· ≠ ·)), List.zipIdx_map_snd]
      exact List.nodup_range'
    refine hne.imp fun {p q} hpq => ?_
    simp only [List.disjoint_left, List.mem_map]
    rintro _ ⟨l, -, rfl⟩ ⟨m, -, he⟩
    exact hpq (Option.some.inj (Prod.mk.inj he).1).symm
  have htop : List.Disjoint (d.layers.map fun l => ((none : Option Nat), l.name))
      (d.devices.zipIdx.flatMap fun p => p.1.layers.map fun l => (some p.2, l.name)) := by
    simp [List.disjoint_left]
  rw [filterMap_layer?_sites, List.nodup_append', hinj, List.nodup_flatMap]
  simp only [hinj]
  rw [← @forall_mem_zipIdx_fst _ _ d.devices]
  exact ⟨fun h => ⟨h.1, h.2.1.1⟩, fun h => ⟨h.1, ⟨h.2, hapart⟩, htop⟩⟩

/-- The part of a list of sources that belongs to a scope. -/
def sourcesOf (key : ScopeKey) (sources : List (ScopeKey × String)) : List String :=
  (sources.filter (·.1 = key)).map (·.2)

theorem filter_map_scope (key key' : ScopeKey) (es : List Entry) :
    ((es.map (key', ·)).filter (·.1 = key)).map (·.2) = if key' = key then es else [] := by
  by_cases h : key' = key <;> simp [h, List.filter_map, Function.comp_def]

theorem filter_layerEntries (key : ScopeKey) (pattern : Option String) (ls : List LayerBlock) :
    ((layerEntries pattern ls).filter (·.1 = key)).map (·.2) =
      match key with
      | ⟨_, none⟩ => []
      | ⟨p, some name⟩ =>
        if pattern = p then (ls.filter (·.name = name)).flatMap (·.entries) else [] := by
  simp only [layerEntries, List.filter_flatMap, List.map_flatMap, filter_map_scope]
  obtain ⟨p, _ | name⟩ := key
  · simp
  · by_cases hp : pattern = p <;> simp [hp, flatMap_ite]

/-- The entries of a scope are those that stand in it. -/
theorem filter_scopedEntries (key : ScopeKey) (d : Document) :
    (d.scopedEntries.filter (·.1 = key)).map (·.2) = d.entriesOf key := by
  simp only [scopedEntries, deviceEntries, List.filter_append, List.filter_flatMap,
    List.map_append, List.map_flatMap, filter_map_scope, filter_layerEntries]
  obtain ⟨_ | pattern, _ | name⟩ := key <;>
    simp [entriesOf, flatMap_ite, List.filter_flatMap, List.flatMap_assoc]

/-- The sources of a scope are those of its entries. -/
theorem sourcesOf_sources (key : ScopeKey) (d : Document) :
    sourcesOf key (d.sources v) = (d.entriesOf key).map fun e => v.identify e.mapping.source := by
  rw [sourcesOf, ← map_sourceOf_scopedEntries, List.filter_map, List.map_map,
    ← filter_scopedEntries, List.map_map]
  rfl

/-- The sources of a document differ just when those of each scope do. -/
theorem nodup_sources_iff (d : Document) : (d.sources v).Nodup ↔
    ∀ key, ((d.entriesOf key).map fun e => v.identify e.mapping.source).Nodup := by
  rw [nodup_iff_forall_nodup_filter]
  refine forall_congr' fun key => ?_
  rw [← sourcesOf_sources, sourcesOf]

/-- The check of a document finds no error just when the document is usable, and nothing at all
just when it repeats no pattern and no layer besides. -/
theorem issues_exact (v : Vocabulary) (d : Document) :
    ((∀ i ∈ d.issues v, i.isError = false) ↔ d.Usable v) ∧
      (d.issues v = [] ↔ d.Usable v ∧ d.Unrepeated) := by
  have husable : ((∀ s ∈ d.sites v, s.Usable v (d.allLayers.map (·.name))) ∧
      ((d.sites v).filterMap Site.source?).Nodup) ↔ d.Usable v := by
    rw [forall_usable_sites_iff, filterMap_sites, nodup_sources_iff]
    exact ⟨fun ⟨⟨hm, hp, hn⟩, hs⟩ => ⟨hm, hp, hn, hs⟩, fun ⟨hm, hp, hn, hs⟩ => ⟨⟨hm, hp, hn⟩, hs⟩⟩
  have hunrepeated : (((d.sites v).filterMap Site.pattern?).Nodup ∧
      ((d.sites v).filterMap Site.layer?).Nodup) ↔ d.Unrepeated := by
    rw [filterMap_pattern?_sites, nodup_layers_iff]
    exact ⟨fun ⟨hp, hl, hn⟩ => ⟨hp, hl, hn⟩, fun ⟨hp, hl, hn⟩ => ⟨hp, hl, hn⟩⟩
  rw [errorFree_iff_sites, issues_eq_nil_iff_sites, husable, hunrepeated]
  exact ⟨.rfl, .rfl⟩

end Document

end KeyRemap
