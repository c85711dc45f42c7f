import KeyRemap.Vocabulary.Search
import Mathlib.Data.List.Basic

/-!
# Keys found by a query

A search lists the keys that have the query among their texts, then those one of whose texts starts
with it, then those that have it inside a text. An alias counts for the first of these bands, and
for the others only the code and the name do (`search_eq_banded`), so a key is missing or comes too
late if the query is a part of an alias only (`not_forall_search_eq_banded`).
-/
namespace KeyRemap

/-- The texts that tell a key: code, name and aliases. -/
def Key.texts (k : Key) : List String := k.code :: k.name :: k.aliases

/-- The texts of a key without its aliases. -/
def Key.titles (k : Key) : List String := [k.code, k.name]

namespace Vocabulary

open Text

/-- One of some texts is a query, but for case. -/
def IsAmong (query : List Char) (texts : List String) : Prop := ∃ t ∈ texts, folded t = query

/-- One of some texts starts with a query, but for case. -/
def Starts (query : List Char) (texts : List String) : Prop := ∃ t ∈ texts, query <+: folded t

/-- A query stands in one of some texts, but for case. -/
def Occurs (query : List Char) (texts : List String) : Prop := ∃ t ∈ texts, query <:+: folded t

instance (query : List Char) (texts : List String) : Decidable (IsAmong query texts) :=
  inferInstanceAs (Decidable (∃ t ∈ texts, _))

instance (query : List Char) (texts : List String) : Decidable (Starts query texts) :=
  inferInstanceAs (Decidable (∃ t ∈ texts, _))

instance (query : List Char) (texts : List String) : Decidable (Occurs query texts) :=
  inferInstanceAs (Decidable (∃ t ∈ texts, _))

/-- The keys with a query among their texts, then the others with one of the `shown` texts starting
with it, then the others with it inside one of these. -/
def banded (shown : Key → List String) (query : List Char) (keys : List Key) : List Key :=
  keys.filter (fun k => IsAmong query k.texts) ++
    keys.filter (fun k => Starts query (shown k) ∧ ¬ IsAmong query k.texts) ++
    keys.filter (fun k => Occurs query (shown k) ∧ ¬ Starts query (shown k) ∧
      ¬ IsAmong query k.texts)

section Fits

variable (query : List Char) (k : Key)

theorem isAmong_texts_iff : IsAmong query k.texts ↔
    (folded k.code = query || folded k.name = query ||
      k.aliases.any (folded · = query)) = true := by
  simp [IsAmong, Key.texts, or_assoc]

theorem starts_titles_iff : Starts query k.titles ↔
    (query.isPrefixOf (folded k.code) || query.isPrefixOf (folded k.name)) = true := by
  simp [Starts, Key.titles]

theorem occurs_titles_iff : Occurs query k.titles ↔
    (occursIn query (folded k.code) || occursIn query (folded k.name)) = true := by
  simp [Occurs, Key.titles, occursIn_iff]

theorem fit?_eq : fit? query k =
    if IsAmong query k.texts then some .exact
    else if Starts query k.titles then some .start
    else if Occurs query k.titles then some .inside
    else none := by
  simp only [fit?, isAmong_texts_iff, starts_titles_iff, occurs_titles_iff]

theorem fit?_eq_exact_iff : fit? query k = some .exact ↔ IsAmong query k.texts := by
  rw [fit?_eq]
  split_ifs <;> simp [*]

theorem fit?_eq_start_iff : fit? query k = some .start ↔
    Starts query k.titles ∧ ¬ IsAmong query k.texts := by
  rw [fit?_eq]
  split_ifs <;> simp [*]

theorem fit?_eq_inside_iff : fit? query k = some .inside ↔
    Occurs query k.titles ∧ ¬ Starts query k.titles ∧ ¬ IsAmong query k.texts := by
  rw [fit?_eq]
  split_ifs <;> simp [*]

end Fits

theorem search_eq (v : Vocabulary) {query : String} (h : query ≠ "") :
    v.search query = banded Key.titles (folded query) v.keys := by
  have hquery : query.isEmpty = false := by simpa using h
  rw [search, hquery]
  simp only [Bool.false_eq_true, if_false, List.filter_map, List.map_map, Function.comp_def,
    List.map_id', fit?_eq_exact_iff, fit?_eq_start_iff, fit?_eq_inside_iff, banded]

/-- The aliases of a key change nothing beyond the first band: if a query stands in one of them, it
is a text of the key, or it stands in its code or name as well, and at the start of one of these if
it is at the start of an alias. -/
def AliasesShown (query : List Char) (k : Key) : Prop :=
  Occurs query k.aliases → IsAmong query k.texts ∨
    Occurs query k.titles ∧ (Starts query k.aliases → Starts query k.titles)

instance (query : List Char) (k : Key) : Decidable (AliasesShown query k) :=
  inferInstanceAs (Decidable (_ → _))

section Aliases

variable {query : List Char} {k : Key}

theorem starts_texts_iff (query : List Char) (k : Key) :
    Starts query k.texts ↔ Starts query k.titles ∨ Starts query k.aliases := by
  simp [Starts, Key.texts, Key.titles, or_assoc]

theorem occurs_texts_iff (query : List Char) (k : Key) :
    Occurs query k.texts ↔ Occurs query k.titles ∨ Occurs query k.aliases := by
  simp [Occurs, Key.texts, Key.titles, or_assoc]

theorem Starts.occurs {texts : List String} (h : Starts query texts) : Occurs query texts := by
  obtain ⟨t, ht, hstarts⟩ := h
  exact ⟨t, ht, hstarts.isInfix⟩

theorem AliasesShown.starts_iff (h : AliasesShown query k) (hn : ¬ IsAmong query k.texts) :
    Starts query k.titles ↔ Starts query k.texts := by
  rw [starts_texts_iff]
  exact ⟨.inl, fun hs => hs.elim id fun ha => ((h ha.occurs).resolve_left hn).2 ha⟩

theorem AliasesShown.occurs_iff (h : AliasesShown query k) (hn : ¬ IsAmong query k.texts) :
    Occurs query k.titles ↔ Occurs query k.texts := by
  rw [occurs_texts_iff]
  exact ⟨.inl, fun ho => ho.elim id fun ha => ((h ha).resolve_left hn).1⟩

theorem banded_titles_eq {keys : List Key} (h : ∀ k ∈ keys, AliasesShown query k) :
    banded Key.titles query keys = banded Key.texts query keys := by
  rw [banded, banded]
  congr 1
  · congr 1
    refine List.filter_congr fun k hk => decide_eq_decide.2 ?_
    exact and_congr_left fun hn => (h k hk).starts_iff hn
  · refine List.filter_congr fun k hk => decide_eq_decide.2 ?_
    constructor
    · rintro ⟨ho, hs, hn⟩
      exact ⟨((h k hk).occurs_iff hn).1 ho, mt ((h k hk).starts_iff hn).2 hs, hn⟩
    · rintro ⟨ho, hs, hn⟩
      exact ⟨((h k hk).occurs_iff hn).2 ho, mt ((h k hk).starts_iff hn).1 hs, hn⟩

end Aliases

/-- A search bands the keys by all texts for a query that is one of them, and else by code and name.
That is by all texts throughout when no alias has more to show than these. -/
theorem search_eq_banded (v : Vocabulary) {query : String} (h : query ≠ "") :
    v.search query = banded Key.titles (folded query) v.keys ∧
      ((∀ k ∈ v.keys, AliasesShown (folded query) k) →
        v.search query = banded Key.texts (folded query) v.keys) := by
  refine ⟨search_eq v h, fun hshown => ?_⟩
  rw [search_eq v h, banded_titles_eq hshown]

/-- A key that has the query as an alias stands in front of one whose name starts with it. -/
theorem search_eq_banded_of_alias :
    let back : Key := ⟨"Back", "Return key", "editing", []⟩
    let enter : Key := ⟨"Enter", "Enter", "editing", ["Return"]⟩
    let v : Vocabulary := ⟨[back, enter], []⟩
    "RETURN" ≠ "" ∧ (∀ k ∈ v.keys, AliasesShown (folded "RETURN") k) ∧
      v.search "RETURN" = [enter, back] := by
  intro back enter v
  have hshown : ∀ k ∈ v.keys, AliasesShown (folded "RETURN") k := by decide +kernel
  have h := (search_eq_banded v (by decide : "RETURN" ≠ "")).2 hshown
  exact ⟨by decide, hshown, h.trans (by decide +kernel)⟩

/-- A search does not find a part of an alias. -/
theorem not_forall_search_eq_banded : ¬ ∀ (v : Vocabulary) (query : String), query ≠ "" →
    v.search query = banded Key.texts (folded query) v.keys := by
  intro h
  have := h ⟨[⟨"Enter", "Enter", "editing", ["Return"]⟩], []⟩ "retur" (by decide)
  exact absurd this (by decide +kernel)

end Vocabulary

end KeyRemap
