import KeyRemap.Vocabulary.Search
import KeyRemap.Proofs.Text.Distance
import Mathlib.Data.List.Nodup
import Mathlib.Data.String.Basic

/-!
# The nearest names

Suggestions are the first three spellings in the order of their distance from a name, then of the
spellings themselves (`suggest_exact`). No two spellings have the same place in that order, so it
does not matter in which order they are listed.
-/
namespace KeyRemap

namespace Text

theorem lowerChar_ne_nil (c : Char) : lowerChar c ≠ [] := by
  rw [lowerChar]
  split_ifs
  · simp
  · simp
  · split <;> simp

/-- Lowercase leaves no text without characters. -/
theorem lowercase_eq_nil_iff (cs : List Char) : lowercase cs = [] ↔ cs = [] := by
  cases cs with
  | nil => simp [lowercase, lowercaseFrom]
  | cons c cs =>
    simp only [lowercase, lowercaseFrom, List.append_eq_nil_iff, reduceCtorEq, iff_false]
    rintro ⟨h, -⟩
    split at h
    · cases h
    · exact lowerChar_ne_nil c h

end Text

namespace Vocabulary

open Text

theorem folded_eq_nil_iff (name : String) : folded name = [] ↔ name = "" := by
  rw [folded, lowercase_eq_nil_iff, String.toList_eq_nil_iff]

/-- Whether some key has a spelling. -/
def Lists (v : Vocabulary) (s : String) : Prop := ∃ k ∈ v.keys, s ∈ k.spellings

/-- How far a spelling is from a name. Neither case nor the mark of virtual keys counts. -/
def remoteness (name s : String) : Nat := distance (folded (bareName name)) (folded s)

/-- A spelling comes before another as a suggestion for a name: it is nearer, or as near and the
first of them by code points. -/
def Precedes (name a b : String) : Prop :=
  remoteness name a < remoteness name b ∨ remoteness name a = remoteness name b ∧ a < b

/-- The spellings near a name in their order. -/
def Ranks (name : String) (spellings ranked : List String) : Prop :=
  ranked.Pairwise (Precedes name) ∧ ∀ s, s ∈ ranked ↔ s ∈ spellings ∧ remoteness name s ≤ 3

theorem nodup_eraseDups (names : List String) : names.eraseDups.Nodup := by
  induction hn : names.length using Nat.strongRecOn generalizing names with
  | ind n ih =>
    cases names with
    | nil => exact List.nodup_nil
    | cons s names =>
      have hlt : (names.filter fun t => !t == s).length < n := by
        have := List.length_filter_le (fun t => !t == s) names
        simp only [List.length_cons] at hn
        omega
      rw [List.eraseDups_cons, List.nodup_cons, List.mem_eraseDups]
      exact ⟨by simp, ih _ hlt _ rfl⟩

theorem mem_spellings_iff (v : Vocabulary) (s : String) : s ∈ v.spellings ↔ v.Lists s := by
  simp [spellings, Lists, List.mem_eraseDups]

theorem nearerOrFirst_iff (a b : Nat × String) :
    nearerOrFirst a b = true ↔ a.1 < b.1 ∨ a.1 = b.1 ∧ a.2 ≤ b.2 := by
  simp only [nearerOrFirst, Bool.or_eq_true, Bool.and_eq_true, decide_eq_true_eq, beq_iff_eq,
    Bool.not_eq_true', decide_eq_false_iff_not, not_lt]

theorem nearerOrFirst_trans (a b c : Nat × String) (hab : nearerOrFirst a b = true)
    (hbc : nearerOrFirst b c = true) : nearerOrFirst a c = true := by
  rw [nearerOrFirst_iff] at *
  rcases hab with hab | ⟨hab, hab'⟩
  · exact .inl (by omega)
  · rcases hbc with hbc | ⟨hbc, hbc'⟩
    · exact .inl (by omega)
    · exact .inr ⟨by omega, hab'.trans hbc'⟩

theorem nearerOrFirst_total (a b : Nat × String) :
    (nearerOrFirst a b || nearerOrFirst b a) = true := by
  rw [Bool.or_eq_true, nearerOrFirst_iff, nearerOrFirst_iff]
  rcases Nat.lt_trichotomy a.1 b.1 with h | h | h
  · exact .inl (.inl h)
  · exact (le_total a.2 b.2).imp (fun h' => .inr ⟨h, h'⟩) fun h' => .inr ⟨h.symm, h'⟩
  · exact .inr (.inl h)

theorem Precedes.asymm {name a b : String} (h : Precedes name a b) : ¬ Precedes name b a := by
  rcases h with h | ⟨h, h'⟩ <;> rintro (g | ⟨g, g'⟩)
  · omega
  · omega
  · omega
  · exact lt_asymm h' g'

theorem Ranks.nodup {name : String} {spellings ranked : List String}
    (h : Ranks name spellings ranked) : ranked.Nodup :=
  h.1.imp fun hab heq => (heq ▸ hab).asymm (heq ▸ hab)

/-- The order tells what comes where. -/
theorem Ranks.unique {name : String} {spellings table ranked ranked' : List String}
    (h : Ranks name spellings ranked) (h' : Ranks name table ranked')
    (hmem : ∀ s, s ∈ table ↔ s ∈ spellings) : ranked' = ranked := by
  refine List.Perm.eq_of_pairwise (fun a b _ _ hab hba => (hab.asymm hba).elim) h'.1 h.1 ?_
  exact (List.perm_ext_iff_of_nodup h'.nodup h.nodup).2 fun s => by rw [h.2, h'.2, hmem]

theorem ranks_mergeSort {spellings : List String} (h : spellings.Nodup) (name : String) :
    Ranks name spellings
      ((((spellings.map fun s => (remoteness name s, s)).filter (·.1 ≤ 3)).mergeSort
        nearerOrFirst).map (·.2)) := by
  set near := (spellings.map fun s => (remoteness name s, s)).filter (·.1 ≤ 3)
  have hmem (p : Nat × String) : p ∈ near.mergeSort nearerOrFirst ↔
      p.2 ∈ spellings ∧ p.1 = remoteness name p.2 ∧ p.1 ≤ 3 := by
    rw [(List.mergeSort_perm _ _).mem_iff, List.mem_filter, List.mem_map, decide_eq_true_iff]
    constructor
    · rintro ⟨⟨s, hs, rfl⟩, hle⟩
      exact ⟨hs, rfl, hle⟩
    · rintro ⟨hs, heq, hle⟩
      exact ⟨⟨p.2, hs, Prod.ext heq.symm rfl⟩, hle⟩
  have hnames : (near.map (·.2)).Sublist spellings := by
    have := (List.filter_sublist (p := (·.1 ≤ 3))
      (l := spellings.map fun s => (remoteness name s, s))).map (·.2)
    simpa [Function.comp_def] using this
  have hnodup : ((near.mergeSort nearerOrFirst).map (·.2)).Nodup :=
    ((List.mergeSort_perm _ _).map _).nodup_iff.2 (hnames.nodup h)
  have hsorted : (near.mergeSort nearerOrFirst).Pairwise fun a b => nearerOrFirst a b = true :=
    List.pairwise_mergeSort nearerOrFirst_trans nearerOrFirst_total near
  constructor
  · refine List.pairwise_map.2 ((hsorted.and (List.pairwise_map.1 hnodup)).imp_of_mem ?_)
    rintro a b ha hb ⟨hle, hne⟩
    rw [nearerOrFirst_iff, ((hmem a).1 ha).2.1, ((hmem b).1 hb).2.1] at hle
    exact hle.imp_right fun hle => ⟨hle.1, lt_of_le_of_ne hle.2 hne⟩
  · intro s
    rw [List.mem_map]
    constructor
    · rintro ⟨p, hp, rfl⟩
      obtain ⟨hs, heq, hle⟩ := (hmem p).1 hp
      exact ⟨hs, heq ▸ hle⟩
    · rintro ⟨hs, hle⟩
      exact ⟨(remoteness name s, s), (hmem _).2 ⟨hs, rfl, hle⟩, rfl⟩

/-- The nearest of some spellings are the first three in their order. -/
theorem exists_ranks {spellings : List String} (h : spellings.Nodup) {name : String}
    (hname : bareName name ≠ "") :
    ∃ ranked, Ranks name spellings ranked ∧ nearest spellings name = ranked.take 3 := by
  refine ⟨_, ranks_mergeSort h name, ?_⟩
  have hwanted : (folded (bareName name)).isEmpty = false := by
    rw [List.isEmpty_eq_false_iff, Ne, folded_eq_nil_iff]
    exact hname
  rw [nearest, hwanted, List.map_take]
  rfl

theorem nearest_eq_nil {name : String} (h : bareName name = "") (spellings : List String) :
    nearest spellings name = [] := by
  rw [nearest, (folded_eq_nil_iff _).2 h]
  rfl

/-- The suggestions for a name are the first three of the spellings that at most three edits turn
the name into, by the number of edits and then by name, whatever the order in which the spellings
are listed. -/
theorem suggest_exact (v : Vocabulary) (name : String) :
    (∀ s, IsLeast {n | Edits n (folded (bareName name)) (folded s)} (remoteness name s)) ∧
      (bareName name = "" → v.suggest name = []) ∧
      (bareName name ≠ "" → ∃ ranked : List String, ranked.Pairwise (Precedes name) ∧
        (∀ s, s ∈ ranked ↔ v.Lists s ∧ remoteness name s ≤ 3) ∧
        v.suggest name = ranked.take 3) ∧
      ∀ table : List String, table.Nodup → (∀ s, s ∈ table ↔ v.Lists s) →
        nearest table name = v.suggest name := by
  refine ⟨fun s => isLeast_distance _ _, fun h => nearest_eq_nil h _, fun h => ?_, ?_⟩
  · obtain ⟨ranked, hranked, hsuggest⟩ := exists_ranks (nodup_eraseDups _) h
    exact ⟨ranked, hranked.1, fun s => by rw [hranked.2, ← mem_spellings_iff]; rfl, hsuggest⟩
  · intro table hnodup hmem
    by_cases h : bareName name = ""
    · rw [suggest, nearest_eq_nil h, nearest_eq_nil h]
    · obtain ⟨ranked, hranked, hsuggest⟩ :=
        exists_ranks (nodup_eraseDups (v.keys.flatMap Key.spellings)) h
      obtain ⟨ranked', hranked', htable⟩ := exists_ranks hnodup h
      have hlists (s : String) : s ∈ table ↔ s ∈ v.spellings := by
        rw [hmem, mem_spellings_iff]
      rw [htable, hranked.unique hranked' hlists, ← hsuggest]
      rfl

end Vocabulary

end KeyRemap
