import KeyRemap.Vocabulary.Json
import KeyRemap.Json.Read
import KeyRemap.Proofs.Vocabulary.Suggestion

/-!
# Listed names

A bare name means the last key that lists it (`lookup?_eq_some_iff`), so every listed name, with the
mark of virtual keys in front, resolves to a key that lists it. Without a mark in front it does so
too, unless it begins with that mark itself: then the name behind the mark is looked up in its place
(`resolves_listed`). A vocabulary may list such a name and have no key for what is behind the mark;
the name is suggested, and is not known (`not_forall_knows_listed`).
-/
namespace KeyRemap

/-- A name with the mark of virtual keys in front. -/
def markedName (name : String) : String := "VK_" ++ name

theorem bareName_markedName (name : String) : bareName (markedName name) = name := by
  simp [bareName, markedName]

namespace Vocabulary

/-- A key is the last one that lists a name. -/
def LastLists (v : Vocabulary) (k : Key) (name : String) : Prop :=
  ∃ before behind, v.keys = before ++ k :: behind ∧ name ∈ k.spellings ∧
    ∀ l ∈ behind, name ∉ l.spellings

/-- A name resolves to a key that lists another. -/
def ResolvesTo (v : Vocabulary) (name listed : String) : Prop :=
  ∃ k, v.resolve? name = some k ∧ k ∈ v.keys ∧ listed ∈ k.spellings

variable {v : Vocabulary} {name : String} {k : Key}

theorem lookup?_eq_some_iff : v.lookup? name = some k ↔ v.LastLists k name := by
  rw [lookup?, List.findRev?_eq_find?_reverse, List.find?_eq_some_iff_append, LastLists]
  constructor
  · rintro ⟨hk, behind, before, hkeys, hbehind⟩
    refine ⟨before.reverse, behind.reverse, ?_, by simpa using hk, by simpa using hbehind⟩
    simpa using congrArg List.reverse hkeys
  · rintro ⟨before, behind, hkeys, hk, hbehind⟩
    exact ⟨by simpa using hk, behind.reverse, before.reverse, by simp [hkeys],
      by simpa using hbehind⟩

theorem LastLists.mem (h : v.LastLists k name) : k ∈ v.keys := by
  obtain ⟨before, behind, hkeys, -⟩ := h
  simp [hkeys]

theorem exists_lookup?_iff : (∃ k, v.lookup? name = some k) ↔ v.Lists name := by
  rw [← Option.isSome_iff_exists, lookup?, List.findRev?_eq_find?_reverse, List.find?_isSome, Lists]
  simp

theorem knows_iff : v.knows name = true ↔ v.Lists (bareName name) := by
  rw [knows, resolve?, Option.isSome_iff_exists, exists_lookup?_iff]

theorem resolvesTo_iff {listed : String} : v.ResolvesTo name listed ↔
    ∃ k, v.LastLists k (bareName name) ∧ listed ∈ k.spellings := by
  simp only [ResolvesTo, resolve?, lookup?_eq_some_iff]
  exact exists_congr fun k => and_congr_right fun h => by simp [h.mem]

/-- The last key that lists the bare form of a name lists that form. -/
theorem resolvesTo_bareName (h : v.Lists (bareName name)) : v.ResolvesTo name (bareName name) := by
  obtain ⟨k, hk⟩ := exists_lookup?_iff.2 h
  obtain ⟨before, behind, hkeys, hlists, hlast⟩ := lookup?_eq_some_iff.1 hk
  exact resolvesTo_iff.2 ⟨k, ⟨before, behind, hkeys, hlists, hlast⟩, hlists⟩

/-- Suggestions are listed names. -/
theorem lists_of_mem_suggest {s : String} (h : s ∈ v.suggest name) : v.Lists s := by
  by_cases hname : bareName name = ""
  · rw [suggest, nearest_eq_nil hname] at h
    cases h
  · obtain ⟨ranked, hranked, hsuggest⟩ :=
      exists_ranks (nodup_eraseDups (v.keys.flatMap Key.spellings)) hname
    rw [suggest, spellings, hsuggest] at h
    exact (mem_spellings_iff v s).1 ((hranked.2 s).1 (List.mem_of_mem_take h)).1

/-- Every listed name, a suggestion for instance, is known with the mark of virtual keys in front,
and resolves to a key that lists it. As it is written it is known just when its bare form is listed,
and resolves to a key that lists it just when the last key with the bare form does, which is so for
every name that does not begin with the mark. -/
theorem resolves_listed (v : Vocabulary) :
    (∀ name s, s ∈ v.suggest name → v.Lists s) ∧
    ∀ name, v.Lists name →
      v.knows (markedName name) = true ∧ v.ResolvesTo (markedName name) name ∧
      (v.knows name = true ↔ v.Lists (bareName name)) ∧
      (v.ResolvesTo name name ↔ ∃ k, v.LastLists k (bareName name) ∧ name ∈ k.spellings) ∧
      (bareName name = name → v.knows name = true ∧ v.ResolvesTo name name) := by
  refine ⟨fun name s => lists_of_mem_suggest, fun name h => ?_⟩
  have hmarked : v.Lists (bareName (markedName name)) := by rwa [bareName_markedName]
  have hresolves := resolvesTo_bareName hmarked
  rw [bareName_markedName] at hresolves
  refine ⟨knows_iff.2 hmarked, hresolves, knows_iff, resolvesTo_iff, fun hbare => ?_⟩
  have hplain : v.Lists (bareName name) := by rwa [hbare]
  have hself := resolvesTo_bareName hplain
  rw [hbare] at hself
  exact ⟨knows_iff.2 hplain, hself⟩

/-- The code of the first key is an alias of the second, and the alias of the first is the code of
the second with the mark in front. -/
theorem resolves_listed_of_crossed_aliases :
    let first : Key := ⟨"A", "A", "letters", ["VK_B"]⟩
    let second : Key := ⟨"B", "B", "letters", ["A"]⟩
    let v : Vocabulary := ⟨[first, second], []⟩
    v.Lists "A" ∧ v.Lists "VK_B" ∧ v.resolve? "A" = some second ∧ v.ResolvesTo "A" "A" ∧
      v.resolve? "VK_VK_B" = some first ∧ v.ResolvesTo (markedName "VK_B") "VK_B" ∧
      v.knows "VK_B" = true ∧ ¬ v.ResolvesTo "VK_B" "VK_B" := by
  intro first second v
  have hcode : v.Lists "A" := ⟨first, by decide, by decide⟩
  have halias : v.Lists "VK_B" := ⟨first, by decide, by decide⟩
  have hsecond : v.resolve? "VK_B" = some second := by decide +kernel
  obtain ⟨-, -, -, -, hbare⟩ := (resolves_listed v).2 "A" hcode
  obtain ⟨-, hmarked, -, -, -⟩ := (resolves_listed v).2 "VK_B" halias
  refine ⟨hcode, halias, by decide +kernel, (hbare (by decide +kernel)).2, by decide +kernel,
    hmarked, by decide +kernel, ?_⟩
  rintro ⟨k, hk, -, hlists⟩
  rw [hsecond] at hk
  cases hk
  exact absurd hlists (by decide)

/-- Neither listed names nor suggestions need be known. -/
theorem not_forall_knows_listed :
    (¬ ∀ (text : String) (v : Vocabulary),
      (Json.parse? text.toList).bind ofJson? = some v → ∀ name, v.Lists name →
        v.knows name = true ∧ v.ResolvesTo name name) ∧
    ¬ ∀ (text : String) (v : Vocabulary),
      (Json.parse? text.toList).bind ofJson? = some v → ∀ name s, s ∈ v.suggest name →
        v.knows s = true := by
  have hread : (Json.parse? ("\x7b\"version\":\"1\",\"categories\":[],\"keys\":[" ++
      "\x7b\"code\":\"VK_X\",\"name\":\"X\",\"category\":\"x\"\x7d]\x7d").toList).bind ofJson? =
        some ⟨[⟨"VK_X", "X", "x", []⟩], []⟩ := by decide +kernel
  constructor
  · intro h
    have hlists : Lists ⟨[⟨"VK_X", "X", "x", []⟩], []⟩ "VK_X" :=
      ⟨⟨"VK_X", "X", "x", []⟩, by decide, by decide⟩
    exact absurd (h _ _ hread "VK_X" hlists).1 (by decide +kernel)
  · intro h
    exact absurd (h _ _ hread "VK_X" "VK_X" (by decide +kernel)) (by decide +kernel)

end Vocabulary

end KeyRemap
