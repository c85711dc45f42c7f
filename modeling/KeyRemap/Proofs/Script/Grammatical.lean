import KeyRemap.Proofs.Script.Acceptance
import KeyRemap.Proofs.Script.Lexemes

/-!
# Whether a text is read

Whether a text is read depends on its words alone: they are what the grammar has, whatever it says
and wherever they stand (`exists_parse_iff`).
-/
namespace KeyRemap.Script

open Grammar

/-- Words that the grammar has in a place. -/
inductive Grammatical : Place → List Lexeme → Prop
  | none (place : Place) : Grammatical place []
  | statement {place : Place} {ls ms : List Lexeme} {m : Mapping} (h : Statement ls m)
    (hs : Grammatical place ms) : Grammatical place (ls ++ ms)
  | layer {place : Place} {ls bs ms : List Lexeme} {name : String} (hp : place ≠ .layer)
    (h : Header "layer" ls name) (hb : Grammatical .layer bs) (hs : Grammatical place ms) :
    Grammatical place (ls ++ bs ++ .mark .closeBrace :: ms)
  | device {ls bs ms : List Lexeme} {pattern : String} (h : Header "device" ls pattern)
    (hb : Grammatical .device bs) (hs : Grammatical .topLevel ms) :
    Grammatical .topLevel (ls ++ bs ++ .mark .closeBrace :: ms)

theorem grammatical_of_says {place : Place} {pending : List String} {ts : List Token}
    {d : Document} (h : Says place pending ts d) : Grammatical place (wordsOf ts) := by
  induction h with
  | done place => exact .none place
  | comment ht _ ih => rwa [wordsOf_comment ht]
  | statement _ _ hm _ ih =>
    rw [wordsOf_append]
    exact .statement hm ih
  | layer hp _ _ hh _ hc _ ihb ih =>
    rw [wordsOf_append, wordsOf_append, wordsOf_word (isComment_of_lexeme hc), hc]
    exact .layer hp hh ihb ih
  | device _ _ hh _ hc _ ihb ih =>
    rw [wordsOf_append, wordsOf_append, wordsOf_word (isComment_of_lexeme hc), hc]
    exact .device hh ihb ih

/-- Where the words of a block come from. -/
theorem exists_block_of_map {word name : String} {ls bs ms : List Lexeme} {gs : List Token}
    (h : Header word ls name) (hg : gs.map (·.lexeme) = ls ++ bs ++ .mark .closeBrace :: ms) :
    ∃ first ts us brace vs, gs = first :: ts ++ us ++ [brace] ++ vs ∧
      Header word ((first :: ts).map (·.lexeme)) name ∧ us.map (·.lexeme) = bs ∧
      brace.lexeme = .mark .closeBrace ∧ vs.map (·.lexeme) = ms := by
  obtain ⟨xs, ys, rfl, hx, hy⟩ := List.map_eq_append_iff.1 hg
  obtain ⟨ts, us, rfl, rfl, hus⟩ := List.map_eq_append_iff.1 hx
  obtain ⟨brace, vs, rfl, hb, hvs⟩ := List.map_eq_cons_iff.1 hy
  cases ts with
  | nil => exact absurd rfl h.ne_nil
  | cons first ts => exact ⟨first, ts, us, brace, vs, by simp, h, hus, hb, hvs⟩

/-- Tokens with such words are what the grammar has. -/
theorem Grammatical.exists_derives {place : Place} {ls : List Lexeme} (h : Grammatical place ls)
    {gs : List Token} (hg : gs.map (·.lexeme) = ls) : ∃ t, Derives gs t place := by
  induction h generalizing gs with
  | none place =>
    obtain rfl := List.map_eq_nil_iff.1 hg
    exact ⟨{}, by cases place <;> constructor⟩
  | @statement place ls ms m h _ ih =>
    obtain ⟨ts, us, rfl, rfl, hus⟩ := List.map_eq_append_iff.1 hg
    obtain ⟨t, ht⟩ := ih hus
    cases ts with
    | nil => exact absurd rfl h.ne_nil
    | cons first ts =>
      refine ⟨{ t with entries := { mapping := m, position := first.position } :: t.entries }, ?_⟩
      cases place with
      | topLevel => exact Program.statement ⟨h⟩ ht
      | device => exact DeviceItems.statement ⟨h⟩ ht
      | layer => exact Statements.more ⟨h⟩ ht
  | @layer place ls bs ms name hp h _ _ ihb ih =>
    obtain ⟨first, ts, us, brace, vs, rfl, h, hus, hb, hvs⟩ := exists_block_of_map h hg
    obtain ⟨b, hbody⟩ := ihb hus
    obtain ⟨t, ht⟩ := ih hvs
    refine ⟨{ t with
      layers := { name := name, entries := b.entries, position := first.position } :: t.layers },
      ?_⟩
    cases place with
    | topLevel => exact Program.layer ⟨h, hbody, hb⟩ ht
    | device => exact DeviceItems.layer ⟨h, hbody, hb⟩ ht
    | layer => exact absurd rfl hp
  | @device ls bs ms pattern h _ _ ihb ih =>
    obtain ⟨first, ts, us, brace, vs, rfl, h, hus, hb, hvs⟩ := exists_block_of_map h hg
    obtain ⟨b, hbody⟩ := ihb hus
    obtain ⟨t, ht⟩ := ih hvs
    exact ⟨_, Program.device ⟨h, hbody, hb⟩ ht⟩

/-- A text is read just when it consists of tokens and the grammar has its words. -/
theorem exists_parse_iff {text : List Char} : (∃ d, parse text = .ok d) ↔
    ∃ ts, tokenize text = .ok ts ∧ Grammatical .topLevel (wordsOf ts) := by
  simp only [parse_eq_ok_iff]
  constructor
  · rintro ⟨d, ts, ht, hs⟩
    exact ⟨ts, ht, grammatical_of_says hs⟩
  · rintro ⟨ts, ht, hg⟩
    obtain ⟨t, hp⟩ := hg.exists_derives rfl
    obtain ⟨d, hd, -⟩ := exists_says_of_program hp rfl []
    exact ⟨d, ts, ht, hd⟩

end KeyRemap.Script
