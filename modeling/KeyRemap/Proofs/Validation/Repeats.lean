import KeyRemap.Proofs.Script.Content
import KeyRemap.Proofs.Token.Lossless
import KeyRemap.Proofs.Validation.Verdict
import KeyRemap.Vocabulary.Standard

/-!
# Which entries are reported as repeated

The check reports a key that is mapped twice at each entry for which an earlier one of the same
scope maps the same key, once, and names the first of these (`Document.duplicates_exact`). The
sites that it goes through tell their scopes by addresses, and what it finds at one depends on the
entries at those before it alone (`Site.duplicates_eq`). The entries of a scope come from tokens in
the order of the text, so in a document that was read the entry that is named stands in front.
-/
namespace KeyRemap

/-- How messages name a scope. -/
def ScopeKey.text : ScopeKey → String
  | ⟨none, none⟩ => "global scope"
  | ⟨none, some name⟩ => "layer \"" ++ name ++ "\""
  | ⟨some pattern, none⟩ => "device \"" ++ pattern ++ "\""
  | ⟨some pattern, some name⟩ =>
    "device \"" ++ pattern ++ "\"" ++ " layer \"" ++ name ++ "\""

/-- The issue that an entry behind others maps a key again: the first of the others with the same
source is the one that it names. -/
def duplicate? (v : Vocabulary) (earlier : List (ScopeKey × Entry)) (p : ScopeKey × Entry) :
    Option Issue :=
  (earlier.find? fun q => Document.sourceOf v q = Document.sourceOf v p).map fun first =>
    ⟨.duplicateSource p.2.mapping.source p.1.text first.2.position p.2.position, p.2.position⟩

def Issue.isDuplicate (i : Issue) : Bool := i.finding.kind = .duplicateSource

namespace Site

/-- What a site says of its entry is what the document and the vocabulary say. -/
def Regular (v : Vocabulary) (d : Document) : Site → Prop
  | .entry scope key identity e =>
    d.describe scope = key.text ∧ identity = v.identify e.mapping.source
  | _ => True

variable {v : Vocabulary} {d : Document} {earlier : List Site}

/-- The first place of a source is that of the first entry that has it. -/
theorem firstSource?_eq (he : ∀ s ∈ earlier, s.Regular v d) (key : ScopeKey) (identity : String) :
    firstSource? key identity earlier =
      ((earlier.filterMap scoped?).find? fun q => Document.sourceOf v q = (key, identity)).map
        (·.2.position) := by
  induction earlier with
  | nil => rfl
  | cons s ss ih =>
    obtain ⟨hs, hss⟩ := List.forall_mem_cons.1 he
    have hrest := ih hss
    rw [firstSource?] at hrest ⊢
    cases s with
    | device block => simpa [scoped?] using hrest
    | layer parent block => simpa [scoped?] using hrest
    | entry scope k i e =>
      obtain ⟨-, hi⟩ := hs
      by_cases h : k = key ∧ i = identity
      · obtain ⟨rfl, rfl⟩ := h
        simp [scoped?, Document.sourceOf, ← hi]
      · have hne : Document.sourceOf v (k, e) ≠ (key, identity) := by
          simpa [Document.sourceOf, ← hi] using h
        simp only [List.findSome?_cons, if_neg h, List.filterMap_cons, scoped?]
        rw [List.find?_cons_of_neg (by simpa using hne)]
        exact hrest

theorem filter_isDuplicate_eq_nil {findings : List Finding}
    (h : ∀ f ∈ findings, f.kind ≠ .duplicateSource) (p : Position) :
    (findings.map (Issue.mk · p)).filter (·.isDuplicate) = [] := by
  rw [List.filter_eq_nil_iff]
  intro i hi
  obtain ⟨f, hf, rfl⟩ := List.mem_map.1 hi
  simpa [Issue.isDuplicate] using h f hf

/-- What is reported as repeated at a site is told by its entry and those of the sites before it. -/
theorem duplicates_eq {s : Site} (hs : s.Regular v d) (he : ∀ t ∈ earlier, t.Regular v d) :
    (s.issues v d earlier).filter (·.isDuplicate) =
      (s.scoped?.bind (duplicate? v (earlier.filterMap scoped?))).toList := by
  cases s with
  | device block =>
    exact filter_isDuplicate_eq_nil
      (fun f hf => kind_ne_of_patternFinding? (by decide) (Option.mem_toList.1 hf)) _
  | layer parent block =>
    exact filter_isDuplicate_eq_nil
      (fun f hf => kind_ne_of_layerNameFinding? (by decide) (Option.mem_toList.1 hf)) _
  | entry scope key identity e =>
    obtain ⟨hscope, hidentity⟩ := hs
    have hkeys : ((keyFindings v e.mapping).map (Issue.mk · e.position)).filter (·.isDuplicate) =
        [] := filter_isDuplicate_eq_nil (fun f hf => kind_ne_of_mem_keyFindings (by decide) hf) _
    have hmapping : ((mappingFinding? (d.allLayers.map (·.name)) e.mapping).toList.map
        (Issue.mk · e.position)).filter (·.isDuplicate) = [] :=
      filter_isDuplicate_eq_nil
        (fun f hf => kind_ne_of_mappingFinding? (Option.mem_toList.1 hf)) _
    have hsource : (key, identity) = Document.sourceOf v (key, e) := by
      rw [hidentity, Document.sourceOf]
    simp only [issues, List.map_append, List.filter_append, hkeys, hmapping, List.nil_append,
      firstSource?_eq he, hscope]
    rw [hsource, scoped?, Option.bind_some, duplicate?]
    cases (earlier.filterMap scoped?).find? _ <;> rfl

end Site

theorem issuesAfter_append_singleton {v : Vocabulary} {d : Document} {earlier : List Site}
    (ss : List Site) (s : Site) : issuesAfter v d earlier (ss ++ [s]) =
      issuesAfter v d earlier ss ++ s.issues v d (earlier ++ ss) := by
  induction ss generalizing earlier with
  | nil => simp [issuesAfter]
  | cons t ss ih => simp [issuesAfter, ih]

/-- What each member of a list gives behind those before it, if one more stands at the end. -/
theorem filterMap_zipIdx_take_append {α β : Type} (f : List α → α → Option β) (xs : List α)
    (x : α) : ((xs ++ [x]).zipIdx.filterMap fun p => f ((xs ++ [x]).take p.2) p.1) =
      (xs.zipIdx.filterMap fun p => f (xs.take p.2) p.1) ++ (f xs x).toList := by
  have hfront : (xs.zipIdx.filterMap fun p => f ((xs ++ [x]).take p.2) p.1) =
      xs.zipIdx.filterMap fun p => f (xs.take p.2) p.1 := by
    refine List.filterMap_congr fun p hp => ?_
    have hlt : p.2 < xs.length := by simpa using (List.mem_zipIdx hp).2.1
    rw [List.take_append_of_le_length (by omega)]
  rw [List.zipIdx_append, List.filterMap_append, hfront]
  cases h : f xs x <;> simp [h]

namespace Document

/-- What is reported as repeated at sites is told by their entries, each with those before it. -/
theorem duplicates_issuesAfter {v : Vocabulary} {d : Document} {ss : List Site}
    (h : ∀ s ∈ ss, s.Regular v d) : (issuesAfter v d [] ss).filter (·.isDuplicate) =
      (ss.filterMap Site.scoped?).zipIdx.filterMap fun p =>
        duplicate? v ((ss.filterMap Site.scoped?).take p.2) p.1 := by
  induction ss using List.reverseRecOn with
  | nil => rfl
  | append_singleton ss s ih =>
    obtain ⟨hss, hs⟩ := List.forall_mem_append.1 h
    rw [List.forall_mem_singleton] at hs
    rw [issuesAfter_append_singleton, List.filter_append, ih hss, List.nil_append,
      Site.duplicates_eq hs hss, List.filterMap_append]
    cases hp : s.scoped? with
    | none => simp [hp]
    | some p =>
      have hone : [s].filterMap Site.scoped? = [p] := by simp [hp]
      rw [hone, filterMap_zipIdx_take_append, Option.bind_some]

section Walk

variable {v : Vocabulary} {d : Document}

theorem regular_entrySites {scope : Scope} {key : ScopeKey} (h : d.describe scope = key.text)
    (es : List Entry) : ∀ s ∈ entrySites v scope key es, s.Regular v d := by
  intro s hs
  obtain ⟨e, -, rfl⟩ := List.mem_map.1 hs
  exact ⟨h, rfl⟩

theorem regular_layerSites {parent : Option Nat} {pattern : Option String}
    (h : ∀ name, d.describe (layerScope parent name) = ScopeKey.text ⟨pattern, some name⟩)
    (ls : List LayerBlock) : ∀ s ∈ layerSites v parent pattern ls, s.Regular v d := by
  intro s hs
  obtain ⟨l, -, hs⟩ := List.mem_flatMap.1 hs
  obtain rfl | hs := List.mem_cons.1 hs
  · trivial
  · exact regular_entrySites (h l.name) l.entries s hs

theorem regular_deviceSites {index : Nat} {b : DeviceBlock} (h : d.devices[index]? = some b) :
    ∀ s ∈ deviceSites v index b, s.Regular v d := by
  have hdevice : d.describe (.device index) = ScopeKey.text ⟨some b.pattern, none⟩ := by
    rw [describe, describeDevice, h, ScopeKey.text]
  have hlayer (name : String) :
      d.describe (layerScope (some index) name) = ScopeKey.text ⟨some b.pattern, some name⟩ := by
    rw [layerScope, describe, describeDevice, h, ScopeKey.text]
  intro s hs
  rw [deviceSites, List.mem_append, List.mem_cons] at hs
  obtain (rfl | hs) | hs := hs
  · trivial
  · exact regular_entrySites hdevice b.entries s hs
  · exact regular_layerSites hlayer b.layers s hs

/-- Each site that the check goes through says of its entry what the document says. -/
theorem regular_of_mem_sites : ∀ s ∈ d.sites v, s.Regular v d := by
  intro s hs
  rw [sites, List.mem_append, List.mem_append] at hs
  obtain (hs | hs) | hs := hs
  · exact regular_entrySites rfl d.entries s hs
  · exact regular_layerSites (fun name => rfl) d.layers s hs
  · obtain ⟨⟨b, index⟩, hb, hs⟩ := List.mem_flatMap.1 hs
    exact regular_deviceSites (List.mem_zipIdx_iff_getElem?.1 hb) s hs

end Walk

section Scopes

variable {d : Document}

theorem entriesOf_entry (e : Entry) (key : ScopeKey) :
    { d with entries := e :: d.entries }.entriesOf key =
      (if key = ⟨none, none⟩ then [e] else []) ++ d.entriesOf key := by
  obtain ⟨_ | pattern, _ | name⟩ := key <;> simp [entriesOf]

theorem entriesOf_layer (l : LayerBlock) (key : ScopeKey) :
    { d with layers := l :: d.layers }.entriesOf key =
      (if key = ⟨none, some l.name⟩ then l.entries else []) ++ d.entriesOf key := by
  obtain ⟨_ | pattern, _ | name⟩ := key
  case none.some =>
    by_cases h : l.name = name
    · simp [entriesOf, h]
    · simp [entriesOf, h, Ne.symm h]
  all_goals simp [entriesOf]

/-- Entries outside all device blocks do not depend on these. -/
theorem entriesOf_outside (d : Document) (layer : Option String) :
    d.entriesOf ⟨none, layer⟩ =
      { entries := d.entries, layers := d.layers : Document }.entriesOf ⟨none, layer⟩ := by
  cases layer <;> rfl

/-- The entries in a device block come before those of the same scope in the blocks behind it. -/
theorem entriesOf_device (b : DeviceBlock) (key : ScopeKey) :
    { d with devices := b :: d.devices }.entriesOf key =
      (if key.pattern = some b.pattern then
        { entries := b.entries, layers := b.layers : Document }.entriesOf ⟨none, key.layer⟩
      else []) ++ d.entriesOf key := by
  obtain ⟨_ | pattern, _ | name⟩ := key
  case some.none | some.some =>
    by_cases h : b.pattern = pattern
    · simp [entriesOf, h]
    · simp [entriesOf, h, Ne.symm h]
  all_goals simp [entriesOf]

end Scopes

end Document

namespace Script

/-- The entries of a scope come from tokens in the order of the text. -/
theorem Says.sublist_entriesOf {place : Place} {pending : List String} {ts : List Token}
    {d : Document} (h : Says place pending ts d) (key : ScopeKey) :
    ((d.entriesOf key).map (·.position)).Sublist (ts.map (·.position)) := by
  induction h generalizing key with
  | done place pending =>
    obtain ⟨_ | pattern, _ | name⟩ := key <;> simp [Document.entriesOf]
  | comment ht _ ih => exact (ih key).cons _
  | @statement place pending first ts us m d hf he hm _ ih =>
    rw [Document.entriesOf_entry, List.map_append, List.map_append]
    refine List.Sublist.append ?_ (ih key)
    split <;> simp
  | @layer place pending first brace ts us vs name b d hp hf he hh _ hc _ ihb ih =>
    rw [Document.entriesOf_layer, List.map_append, List.map_append, List.map_cons]
    refine List.Sublist.append ?_ ((ih key).cons _)
    split
    · rw [List.map_append]
      exact (ihb ⟨none, none⟩).trans (List.sublist_append_right _ _)
    · exact List.nil_sublist _
  | @device pending first brace ts us vs pattern b d hf he hh _ hc _ ihb ih =>
    rw [Document.entriesOf_device, List.map_append, List.map_append, List.map_cons]
    refine List.Sublist.append ?_ ((ih key).cons _)
    split
    · have hbody := ihb ⟨none, key.layer⟩
      rw [Document.entriesOf_outside] at hbody
      rw [List.map_append]
      exact hbody.trans (List.sublist_append_right _ _)
    · exact List.nil_sublist _

end Script

namespace Document

open Script

/-- In a document that was read, of two entries of one scope the first stands in front. -/
theorem before_of_sublist {text : List Char} {d : Document} (h : parse text = .ok d)
    {p q : ScopeKey × Entry} (hs : [p, q].Sublist d.scopedEntries) (hk : p.1 = q.1) :
    p.2.position.Before q.2.position := by
  obtain ⟨ts, ht, hsaid⟩ := parse_eq_ok_iff.1 h
  have hpair : [p.2, q.2].Sublist (d.entriesOf q.1) := by
    rw [← filter_scopedEntries]
    simpa [hk] using (hs.filter (·.1 = q.1)).map (·.2)
  have htokens : [p.2.position, q.2.position].Sublist (ts.map (·.position)) :=
    (hpair.map Entry.position).trans (hsaid.sublist_entriesOf q.1)
  have hbefore := ((spells_of_tokenizeFrom ht).pairwise_before (spelled_of_tokenizeFrom ht)).2
  exact List.pairwise_iff_forall_sublist.1 hbefore htokens

/-- The check reports a key that is mapped twice at each entry for which an earlier one of the same
scope maps the same key, once, and at no other. It names the first of these, which stands in front
if the document was read. -/
theorem duplicates_exact (v : Vocabulary) (d : Document) :
    (d.issues v).filter (·.isDuplicate) =
        (d.scopedEntries.zipIdx.filterMap fun p =>
          duplicate? v (d.scopedEntries.take p.2) p.1) ∧
      ∀ text, parse text = .ok d → ∀ i ∈ d.issues v, i.isDuplicate = true →
        ∃ first, i.finding.related = some first ∧ first.Before i.position := by
  have hall : (d.issues v).filter (·.isDuplicate) =
      d.scopedEntries.zipIdx.filterMap fun p =>
        duplicate? v (d.scopedEntries.take p.2) p.1 := by
    rw [issues, duplicates_issuesAfter regular_of_mem_sites, filterMap_scoped?_sites]
  refine ⟨hall, fun text h i hi hd => ?_⟩
  have hmem : i ∈ (d.issues v).filter (·.isDuplicate) := List.mem_filter.2 ⟨hi, hd⟩
  rw [hall] at hmem
  obtain ⟨⟨p, n⟩, hp, hdup⟩ := List.mem_filterMap.1 hmem
  obtain ⟨first, hfirst, rfl⟩ := Option.map_eq_some_iff.1 hdup
  dsimp only at hfirst ⊢
  have hsource : sourceOf v first = sourceOf v p := by simpa using List.find?_some hfirst
  have hsub : [first, p].Sublist (d.scopedEntries.take n ++ d.scopedEntries.drop n) := by
    have hdrop : (d.scopedEntries.drop n)[0]? = some p := by
      rw [List.getElem?_drop, Nat.add_zero]
      exact List.mem_zipIdx_iff_getElem?.1 hp
    exact (List.singleton_sublist.2 (List.mem_of_find?_eq_some hfirst)).append
      (List.singleton_sublist.2 (List.mem_of_getElem? hdrop))
  rw [List.take_append_drop] at hsub
  have hkey : first.1 = p.1 := (Prod.ext_iff.1 hsource).1
  exact ⟨first.2.position, rfl, before_of_sublist h hsub hkey⟩

/-- A device block that is repeated, and a key with three names: both repeats name the first place.
The same key outside the blocks is another one. -/
theorem duplicates_exact_of_repeated_block :
    ∃ (text : List Char) (d : Document), parse text = .ok d ∧
      (d.issues .standard).filter (·.isDuplicate) =
        [⟨.duplicateSource "Esc" "device \"k\"" ⟨1, 14⟩ ⟨2, 14⟩, ⟨2, 14⟩⟩,
          ⟨.duplicateSource "VK_Escape" "device \"k\"" ⟨1, 14⟩ ⟨2, 31⟩, ⟨2, 31⟩⟩] ∧
      ∀ i ∈ d.issues .standard, i.isDuplicate = true →
        ∃ first, i.finding.related = some first ∧ first.Before i.position := by
  let text : List Char :=
    "device(\"k\") \x7bmap(\"Escape\", \"A\"); \x7d\n".toList ++
    "device(\"k\") \x7bmap(\"Esc\", \"B\"); map(\"VK_Escape\", \"C\"); \x7d\n".toList ++
    "map(\"Escape\", \"D\");".toList
  let d : Document :=
    { entries := [⟨.simple "Escape" "D", [], ⟨3, 1⟩⟩]
      devices :=
        [{ pattern := "k", entries := [⟨.simple "Escape" "A", [], ⟨1, 14⟩⟩], position := ⟨1, 1⟩ },
          { pattern := "k"
            entries := [⟨.simple "Esc" "B", [], ⟨2, 14⟩⟩, ⟨.simple "VK_Escape" "C", [], ⟨2, 31⟩⟩]
            position := ⟨2, 1⟩ }] }
  have hp : parse text = .ok d := by decide +kernel
  obtain ⟨hall, hbefore⟩ := duplicates_exact .standard d
  refine ⟨text, d, hp, hall.trans ?_, hbefore text hp⟩
  decide +kernel

end Document

end KeyRemap
