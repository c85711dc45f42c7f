import KeyRemap.Proofs.Edit.Renaming
import KeyRemap.Proofs.Validation.Verdict

/-!
# Switches to layers that are declared

The check of a document reports the switches that name no layer of it
(`Document.reportsUnresolved_iff`). A rename leaves none behind (`Edit.declared_apply_renameLayer`):
a switch that is turned names the renamed layer, and one that is not turned, though it names the
old name, has another layer of that name, be it in its own block or elsewhere.
-/
namespace KeyRemap

namespace Document

/-- Every switch names a layer that is declared somewhere. -/
def SwitchesDeclared (d : Document) : Prop :=
  ∀ e ∈ d.allEntries, ∀ name ∈ e.mapping.switch?, d.declaresLayer name = true

/-- The check reports a switch to a layer that is not declared. -/
def ReportsUnresolved (v : Vocabulary) (d : Document) : Prop :=
  ∃ i ∈ d.issues v, i.finding.kind = .unresolvedLayer

end Document

section Check

variable {v : Vocabulary} {d : Document} {earlier : List Site}

/-- Of a mapping, nothing but a switch to a layer that is not declared is reported as such. -/
theorem forall_kind_mappingFinding?_iff {layers : List String} {m : Mapping} :
    (∀ f ∈ mappingFinding? layers m, f.kind ≠ .unresolvedLayer) ↔
      ∀ name ∈ m.switch?, name ∈ layers := by
  cases m with
  | layerSwitch key layer =>
    by_cases hl : layer ∈ layers
    · simp [mappingFinding?, Mapping.switch?, hl]
    · simp [mappingFinding?, Mapping.switch?, hl, Finding.kind]
  | simple source target => simp [mappingFinding?, Mapping.switch?]
  | tapHold source tap hold timeout =>
    simp only [mappingFinding?, Mapping.switch?]
    split <;> simp [Finding.kind]
  | sequence source keys =>
    simp only [mappingFinding?, Mapping.switch?]
    split <;> simp [Finding.kind]

/-- A site is reported for its switch just when that names no declared layer, whatever stands in
front of it. -/
theorem Site.forall_kind_issues_iff (s : Site) :
    (∀ i ∈ s.issues v d earlier, i.finding.kind ≠ .unresolvedLayer) ↔
      ∀ p ∈ s.scoped?, ∀ name ∈ p.2.mapping.switch?, d.declaresLayer name = true := by
  cases s with
  | device block =>
    simpa [issues, scoped?] using fun f hf => kind_ne_of_patternFinding? (by decide) hf
  | layer parent block =>
    simpa [issues, scoped?] using fun f hf => kind_ne_of_layerNameFinding? (by decide) hf
  | entry scope key identity e =>
    have hkeys : ∀ f ∈ keyFindings v e.mapping, f.kind ≠ .unresolvedLayer :=
      fun f hf => kind_ne_of_mem_keyFindings (by decide) hf
    have hduplicate (source text : String) : ∀ f ∈ ((firstSource? key identity earlier).map
        fun first => Finding.duplicateSource source text first e.position).toList,
        f.kind ≠ .unresolvedLayer := by
      intro f hf
      obtain ⟨first, -, rfl⟩ := Option.map_eq_some_iff.1 (Option.mem_toList.1 hf)
      simp [Finding.kind]
    have hdeclared (name : String) : name ∈ d.allLayers.map (·.name) ↔
        d.declaresLayer name = true := by
      simp [Document.declaresLayer]
    simp only [issues, List.forall_mem_map, List.forall_mem_append]
    rw [and_iff_left (hduplicate _ _), and_iff_right hkeys]
    simp only [Option.mem_toList, ← Option.mem_def, forall_kind_mappingFinding?_iff, hdeclared]
    simp [scoped?]

namespace Document

theorem map_scopedEntries (d : Document) : d.scopedEntries.map (·.2) = d.allEntries := by
  simp [scopedEntries, layerEntries, deviceEntries, allEntries, List.map_flatMap,
    Function.comp_def]

/-- The check reports a switch to a layer that is not declared just when there is one. -/
theorem reportsUnresolved_iff : d.ReportsUnresolved v ↔ ¬ d.SwitchesDeclared := by
  have hnone : (∀ i ∈ d.issues v, i.finding.kind ≠ .unresolvedLayer) ↔ d.SwitchesDeclared := by
    rw [issues, forall_mem_issuesAfter_iff]
    simp only [Site.forall_kind_issues_iff]
    rw [forall_split_iff, SwitchesDeclared, ← map_scopedEntries, ← filterMap_scoped?_sites v d,
      List.forall_mem_map]
    constructor
    · intro h p hp
      obtain ⟨s, hs, hp⟩ := List.mem_filterMap.1 hp
      exact h s hs p hp
    · intro h s hs p hp
      exact h p (List.mem_filterMap.2 ⟨s, hs, hp⟩)
  rw [← hnone, ReportsUnresolved]
  simp

end Document

end Check

namespace Document

variable {d d' : Document} {parent device : Option Nat} {source target name : String}

/-- What stands in the member at some index of a list is what stands in its members. -/
theorem forall_mem_elim_getElem?_iff {α β : Type} {part : α → List β} {P : β → Prop}
    {xs : List α} :
    (∀ i : Nat, ∀ y ∈ (xs[i]?).elim [] part, P y) ↔ ∀ x ∈ xs, ∀ y ∈ part x, P y := by
  constructor
  · intro h x hx
    obtain ⟨i, hi⟩ := List.mem_iff_getElem?.1 hx
    simpa [hi] using h i
  · intro h i
    cases hi : xs[i]? with
    | none => simp
    | some x => exact h x (List.mem_of_getElem? hi)

/-- The entries of a document stand in its blocks and layers. -/
theorem forall_mem_entriesIn_iff {P : Entry → Prop} :
    (∀ device layer, ∀ e ∈ d.entriesIn device layer, P e) ↔ ∀ e ∈ d.allEntries, P e := by
  have hblock (device : Option Nat) : (∀ layer, ∀ e ∈ d.entriesIn device layer, P e) ↔
      (∀ e ∈ d.ownEntries device, P e) ∧ ∀ l ∈ d.layersIn device, ∀ e ∈ l.entries, P e := by
    rw [Option.forall]
    exact and_congr_right' forall_mem_elim_getElem?_iff
  have hown : (∀ i, ∀ e ∈ d.ownEntries (some i), P e) ↔ ∀ b ∈ d.devices, ∀ e ∈ b.entries, P e :=
    forall_mem_elim_getElem?_iff
  have hlayers : (∀ i, ∀ l ∈ d.layersIn (some i), ∀ e ∈ l.entries, P e) ↔
      ∀ b ∈ d.devices, ∀ l ∈ b.layers, ∀ e ∈ l.entries, P e :=
    forall_mem_elim_getElem?_iff
  rw [forall_mem_allEntries]
  simp only [hblock, Option.forall, forall_and, hown, hlayers, and_assoc]
  exact and_congr_right' and_left_comm

/-- Every switch names a declared layer, told by its place. -/
theorem switchesDeclared_iff : d.SwitchesDeclared ↔
    ∀ place name, d.switchAt? place = some name → ∃ parent, name ∈ d.namesIn parent := by
  simp only [SwitchesDeclared, ← forall_mem_entriesIn_iff, declaresLayer_iff]
  constructor
  · intro h place name hs
    obtain ⟨e, he, hname⟩ := Option.bind_eq_some_iff.1 hs
    exact h place.device place.layer e (List.mem_of_getElem? he) name hname
  · intro h device layer e he name hname
    obtain ⟨i, hi⟩ := List.mem_iff_getElem?.1 he
    refine h ⟨device, layer, i⟩ name ?_
    rw [switchAt?, hi]
    exact hname

/-- A switch that names a declared layer does so after a rename, by the name that it has then. -/
theorem Renamed.declared {us vs : List String} (h : d.Renamed d' parent source target us vs)
    (hd : ∃ other, name ∈ d.namesIn other) (device : Option Nat) :
    ∃ other, (if d'.turns parent source device = true ∧ name = source then target else name) ∈
      d'.namesIn other := by
  by_cases hs : name = source
  · subst hs
    by_cases ht : d'.turns parent name device = true
    · refine ⟨parent, ?_⟩
      rw [if_pos ⟨ht, rfl⟩, h.namesIn_parent]
      simp
    · rw [if_neg fun hboth => ht hboth.1]
      -- If no layer had the old name any more, the switch would have been turned.
      by_contra hgone
      have hnone : ∀ other, name ∉ d'.namesIn other := not_exists.1 hgone
      exact ht ((turns_iff ..).2 (.inr ⟨.inr hnone, fun own _ => hnone (some own)⟩))
  · rw [if_neg fun hboth => hs hboth.2]
    obtain ⟨other, hname⟩ := hd
    refine ⟨other, ?_⟩
    by_cases ho : other = parent
    · rw [ho, h.before] at hname
      rw [ho, h.namesIn_parent]
      obtain hu | hv := List.mem_append.1 hname
      · exact List.mem_append_left _ hu
      · have hv : name ∈ vs := (List.mem_cons.1 hv).resolve_left hs
        exact List.mem_append_right _ (List.mem_cons_of_mem _ hv)
    · rwa [h.namesIn_of_ne ho]

end Document

namespace Edit

open Document

/-- If every switch of a document names a declared layer, so does every one after a rename, and the
check reports none. -/
theorem declared_apply_renameLayer {d d' : Document} {parent : Option Nat}
    {source target : String} (hd : d.SwitchesDeclared)
    (ha : (Edit.renameLayer parent source target).apply d = .ok d') :
    d'.SwitchesDeclared ∧ ∀ v, ¬ d'.ReportsUnresolved v := by
  have hafter : d'.SwitchesDeclared := by
    rw [switchesDeclared_iff] at hd ⊢
    cases makes_of_apply ha with
    | @renameLayer _ _ _ xs ys l put hp hname hx hfree =>
      subst hname
      have hrenamed := hp.renamed hx hfree
      intro place name hs
      rw [switchAt?_retarget, switchAt?, hp.entriesIn_rename, ← switchAt?] at hs
      obtain ⟨old, hold, rfl⟩ := Option.map_eq_some_iff.1 hs
      rw [namesIn_retarget]
      exact hrenamed.declared (hd place old hold) place.device
  exact ⟨hafter, fun v hr => reportsUnresolved_iff.1 hr hafter⟩

/-- A name that several layers of one block have, and one outside: the switch in the block is turned
to the layer that is renamed, the one behind it is left to the layer outside. -/
theorem declared_apply_renameLayer_of_repeated_name :
    ∃ d d' : Document,
      d = { layers := [{ name := "nav" }]
            devices :=
              [{ pattern := "a"
                 entries := [{ mapping := .layerSwitch "CapsLock" "nav" }]
                 layers := [{ name := "nav" }, { name := "nav" }] },
                { pattern := "b", entries := [{ mapping := .layerSwitch "RAlt" "nav" }] }] } ∧
      d.SwitchesDeclared ∧ (Edit.renameLayer (some 0) "nav" "arrows").apply d = .ok d' ∧
      d'.devices.map (fun b => b.entries.map (·.mapping)) =
        [[.layerSwitch "CapsLock" "arrows"], [.layerSwitch "RAlt" "nav"]] ∧
      d'.SwitchesDeclared ∧ ∀ v, ¬ d'.ReportsUnresolved v := by
  let d : Document :=
    { layers := [{ name := "nav" }]
      devices :=
        [{ pattern := "a"
           entries := [{ mapping := .layerSwitch "CapsLock" "nav" }]
           layers := [{ name := "nav" }, { name := "nav" }] },
          { pattern := "b", entries := [{ mapping := .layerSwitch "RAlt" "nav" }] }] }
  have hd : d.SwitchesDeclared := by
    unfold SwitchesDeclared
    decide
  have ha : (Edit.renameLayer (some 0) "nav" "arrows").apply d = .ok _ := rfl
  exact ⟨d, _, rfl, hd, ha, rfl, declared_apply_renameLayer hd ha⟩

end Edit

end KeyRemap
