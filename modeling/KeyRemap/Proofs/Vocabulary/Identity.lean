import KeyRemap.Proofs.Edit.Assignment
import KeyRemap.Proofs.Validation.Repeats
import KeyRemap.Proofs.Vocabulary.Listing

/-!
# Names that mean one key

What two names have in common is told by the code of a key for names that are known and by the bare
name for others. The two do not meet: every code of a vocabulary is itself known, as some key, even
if a later key lists it as an alias (`code_ne_bareName`). So the common part is the same just when
the names are synonymous, and neither the check for repeated keys nor the setting of a mapping takes
a known and an unknown name for one key (`identify_exact`).
-/
namespace KeyRemap

namespace Vocabulary

/-- Two names mean one key: both resolve, to keys of one code, or neither does and they are one name
but for the mark of virtual keys. -/
def Synonymous (v : Vocabulary) (a b : String) : Prop :=
  (∃ k l, v.resolve? a = some k ∧ v.resolve? b = some l ∧ k.code = l.code) ∨
    v.resolve? a = none ∧ v.resolve? b = none ∧ bareName a = bareName b

variable {v : Vocabulary} {name a b : String} {k l : Key}

theorem identify_of_resolve?_some (h : v.resolve? name = some k) : v.identify name = k.code := by
  simp [identify, canonical?, h]

theorem identify_of_resolve?_none (h : v.resolve? name = none) :
    v.identify name = bareName name := by
  simp [identify, canonical?, h]

/-- The code of a key that is found is looked up as some key, not always the same. -/
theorem exists_lookup?_code (h : v.resolve? name = some k) : ∃ l, v.lookup? k.code = some l :=
  exists_lookup?_iff.2 ⟨k, (lookup?_eq_some_iff.1 h).mem, List.mem_cons_self⟩

/-- No code of a key that is found is the bare form of an unknown name. -/
theorem code_ne_bareName (ha : v.resolve? a = some k) (hb : v.resolve? b = none) :
    k.code ≠ bareName b := by
  intro he
  obtain ⟨l, hl⟩ := exists_lookup?_code ha
  rw [resolve?, ← he, hl] at hb
  cases hb

theorem identify_eq_iff (v : Vocabulary) (a b : String) :
    v.identify a = v.identify b ↔ v.Synonymous a b := by
  cases ha : v.resolve? a with
  | some k =>
    rw [identify_of_resolve?_some ha]
    cases hb : v.resolve? b with
    | some l =>
      rw [identify_of_resolve?_some hb]
      simp [Synonymous, ha, hb]
    | none =>
      rw [identify_of_resolve?_none hb]
      simp [Synonymous, ha, hb, code_ne_bareName ha hb]
  | none =>
    rw [identify_of_resolve?_none ha]
    cases hb : v.resolve? b with
    | some l =>
      rw [identify_of_resolve?_some hb]
      simp [Synonymous, ha, hb, (code_ne_bareName hb ha).symm]
    | none =>
      rw [identify_of_resolve?_none hb]
      simp [Synonymous, ha, hb]

/-- Of two synonymous names both are known or neither is. -/
theorem Synonymous.knows_eq (h : v.Synonymous a b) : v.knows a = v.knows b := by
  obtain ⟨k, l, ha, hb, -⟩ | ⟨ha, hb, -⟩ := h <;> simp [knows, ha, hb]

end Vocabulary

theorem sameKey_iff_synonymous {a b : String} :
    sameKey a b = true ↔ Vocabulary.standard.Synonymous a b :=
  sameKey_iff.trans (Vocabulary.identify_eq_iff _ a b)

namespace Document

variable {v : Vocabulary} {d : Document} {i : Issue}

theorem sourceOf_eq_iff {p q : ScopeKey × Entry} : sourceOf v p = sourceOf v q ↔
    p.1 = q.1 ∧ v.Synonymous p.2.mapping.source q.2.mapping.source := by
  rw [sourceOf, sourceOf, Prod.mk.injEq, Vocabulary.identify_eq_iff]

/-- The issue of a repeated key names the first entry of the scope for a synonymous name. -/
theorem duplicate?_eq_some_iff {earlier : List (ScopeKey × Entry)} {p : ScopeKey × Entry} :
    duplicate? v earlier p = some i ↔ ∃ before first between,
      earlier = before ++ first :: between ∧ first.1 = p.1 ∧
      v.Synonymous first.2.mapping.source p.2.mapping.source ∧
      (∀ q ∈ before, q.1 = p.1 → ¬ v.Synonymous q.2.mapping.source p.2.mapping.source) ∧
      i = ⟨.duplicateSource p.2.mapping.source p.1.text first.2.position p.2.position,
        p.2.position⟩ := by
  simp only [duplicate?, Option.map_eq_some_iff, List.find?_eq_some_iff_append, sourceOf_eq_iff,
    decide_eq_true_eq, Bool.not_eq_true', decide_eq_false_iff_not, not_and]
  constructor
  · rintro ⟨first, ⟨⟨hscope, hsyn⟩, before, between, hearlier, hbefore⟩, rfl⟩
    exact ⟨before, first, between, hearlier, hscope, hsyn, hbefore, rfl⟩
  · rintro ⟨before, first, between, hearlier, hscope, hsyn, hbefore, rfl⟩
    exact ⟨first, ⟨⟨hscope, hsyn⟩, before, between, hearlier, hbefore⟩, rfl⟩

/-- Issues of repeated keys are about an entry and those in front of it. -/
theorem mem_issues_and_isDuplicate_iff : (i ∈ d.issues v ∧ i.isDuplicate = true) ↔
    ∃ earlier p behind, d.scopedEntries = earlier ++ p :: behind ∧
      duplicate? v earlier p = some i := by
  refine List.mem_filter.symm.trans ?_
  rw [issues, duplicates_issuesAfter regular_of_mem_sites, filterMap_scoped?_sites,
    List.mem_filterMap]
  constructor
  · rintro ⟨⟨p, n⟩, hp, hdup⟩
    have hget : d.scopedEntries[n]? = some p := List.mem_zipIdx_iff_getElem?.1 hp
    obtain ⟨hn, rfl⟩ := List.getElem?_eq_some_iff.1 hget
    refine ⟨d.scopedEntries.take n, _, d.scopedEntries.drop (n + 1), ?_, hdup⟩
    rw [← List.drop_eq_getElem_cons, List.take_append_drop]
  · rintro ⟨earlier, p, behind, hsplit, hdup⟩
    refine ⟨(p, earlier.length), List.mem_zipIdx_iff_getElem?.2 ?_, ?_⟩
    · simp [hsplit]
    · simpa [hsplit] using hdup

end Document

/-- Names have the same identity just when they are synonymous, and then both are known or neither
is. The check takes an entry for a repeated key just when one in front of it in its scope has a
synonymous name, and setting a mapping changes the first entry with a name that is synonymous to
its key, if there is one. -/
theorem Vocabulary.identify_exact (v : Vocabulary) :
    (∀ a b, v.identify a = v.identify b ↔ v.Synonymous a b) ∧
    (∀ a b, v.Synonymous a b → v.knows a = v.knows b) ∧
    (∀ (d : Document) (i : Issue), (i ∈ d.issues v ∧ i.isDuplicate = true) ↔
      ∃ before first between second behind,
        d.scopedEntries = before ++ first :: between ++ second :: behind ∧
        first.1 = second.1 ∧ v.Synonymous first.2.mapping.source second.2.mapping.source ∧
        (∀ p ∈ before, p.1 = second.1 →
          ¬ v.Synonymous p.2.mapping.source second.2.mapping.source) ∧
        i = ⟨.duplicateSource second.2.mapping.source second.1.text first.2.position
          second.2.position, second.2.position⟩) ∧
    ∀ (d d' : Document) (scope : Scope) (m : Mapping),
      (Edit.setMapping scope m).apply d = .ok d' →
      ∃ es put, d.EntriesAt scope es put ∧
        ((∃ xs e ys, es = xs ++ e :: ys ∧
            (∀ x ∈ xs, ¬ standard.Synonymous x.mapping.source m.source) ∧
            standard.Synonymous e.mapping.source m.source ∧
            d' = put (xs ++ { e with mapping := m } :: ys)) ∨
          (∀ e ∈ es, ¬ standard.Synonymous e.mapping.source m.source) ∧
            d' = put (es ++ [{ mapping := m }])) := by
  refine ⟨v.identify_eq_iff, fun a b h => h.knows_eq, fun d i => ?_, fun d d' scope m h => ?_⟩
  · rw [Document.mem_issues_and_isDuplicate_iff]
    constructor
    · rintro ⟨earlier, second, behind, hsplit, hdup⟩
      obtain ⟨before, first, between, rfl, hfirst⟩ := Document.duplicate?_eq_some_iff.1 hdup
      exact ⟨before, first, between, second, behind, hsplit, hfirst⟩
    · rintro ⟨before, first, between, second, behind, hsplit, hfirst⟩
      exact ⟨_, second, behind, hsplit,
        Document.duplicate?_eq_some_iff.2 ⟨before, first, between, rfl, hfirst⟩⟩
  · cases Edit.makes_of_apply h with
    | @setMapping _ _ es put hm hp =>
      refine ⟨es, put, hp, ?_⟩
      simp only [← sameKey_iff_synonymous, Bool.not_eq_true]
      obtain ⟨xs, e, ys, hes, hx, he, hput⟩ | ⟨hnone, hput⟩ := putMapping_cases m es
      · exact .inl ⟨xs, e, ys, hes, hx, he, congrArg put hput⟩
      · exact .inr ⟨hnone, congrArg put hput⟩

/-- The code of the first key is an alias of the second, so the alias of the first has the identity
that this code would have as an unknown name. -/
theorem Vocabulary.identify_exact_of_crossed_codes :
    let v : Vocabulary := ⟨[⟨"A", "A", "letters", ["X"]⟩, ⟨"B", "B", "letters", ["A"]⟩], []⟩
    let d : Document :=
      { entries := [⟨.simple "X" "1", [], ⟨1, 1⟩⟩, ⟨.simple "VK_A" "2", [], ⟨2, 1⟩⟩,
          ⟨.simple "B" "3", [], ⟨3, 1⟩⟩] }
    v.identify "X" = "A" ∧ ¬ v.Synonymous "X" "A" ∧ v.Synonymous "VK_A" "B" ∧
      v.Synonymous "VK_Y" "Y" ∧ ¬ v.Synonymous "VK_VK_Y" "Y" ∧
      ⟨.duplicateSource "B" "global scope" ⟨2, 1⟩ ⟨3, 1⟩, ⟨3, 1⟩⟩ ∈ d.issues v ∧
      ∃ d' es put, (Edit.setMapping .global (.simple "VK_B" "4")).apply d = .ok d' ∧
        d.EntriesAt .global es put ∧ ∃ xs e ys, es = xs ++ e :: ys ∧
          standard.Synonymous e.mapping.source "VK_B" ∧
          d' = put (xs ++ { e with mapping := .simple "VK_B" "4" } :: ys) := by
  intro v d
  obtain ⟨hsyn, -, hissues, hset⟩ := identify_exact v
  have hcode : ¬ v.Synonymous "X" "A" := fun h => absurd ((hsyn _ _).2 h) (by decide +kernel)
  have halias : ¬ v.Synonymous "X" "B" := fun h => absurd ((hsyn _ _).2 h) (by decide +kernel)
  have hsame : v.Synonymous "VK_A" "B" := (hsyn _ _).1 (by decide +kernel)
  have hissue := (hissues d _).2
    ⟨[_], _, [], _, [], rfl, rfl, hsame, List.forall_mem_singleton.2 fun _ => halias, rfl⟩
  refine ⟨by decide +kernel, hcode, hsame, (hsyn _ _).1 (by decide +kernel),
    fun h => absurd ((hsyn _ _).2 h) (by decide +kernel), hissue.1, ?_⟩
  have ha : (Edit.setMapping .global (.simple "VK_B" "4")).apply d = .ok _ := rfl
  obtain ⟨es, put, hp, ⟨xs, e, ys, hes, -, he, hd⟩ | ⟨hnone, -⟩⟩ := hset d _ _ _ ha
  · exact ⟨_, es, put, ha, hp, xs, e, ys, hes, he, hd⟩
  · have hes : d.entries = es := Except.ok.inj hp.entriesAt_eq
    have hb : standard.Synonymous "B" "VK_B" := (identify_eq_iff _ _ _).1 (by decide +kernel)
    have hlast : ⟨.simple "B" "3", [], ⟨3, 1⟩⟩ ∈ es := by simp [← hes, d]
    exact (hnone _ hlast hb).elim

end KeyRemap
