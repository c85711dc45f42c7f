import KeyRemap.Proofs.Layout.Lexemes

/-!
# Lexemes joined on a line

Any lexemes that texts can have, comments apart, are read again when they are joined on a line,
whether a script could have them in this order or not. Only the commas directly in front of closing
brackets are gone, told here by the places of the lexemes (`tokenize_joined`). A lexeme that is read
from some text is the one that its own spelling is read as (`Lexeme.occurs_iff_spelled`), so what
stood around it before does not matter.
-/
namespace KeyRemap

/-- Some text has the lexeme. -/
def Lexeme.Occurs (l : Lexeme) : Prop :=
  ∃ text ts, tokenize text = .ok ts ∧ l ∈ ts.map (·.lexeme)

theorem Lexeme.occurs_iff_spelled (l : Lexeme) : l.Occurs ↔ l.Spelled := by
  constructor
  · rintro ⟨text, ts, ht, hl⟩
    obtain ⟨t, hm, rfl⟩ := List.mem_map.1 hl
    exact spelled_of_tokenizeFrom ht t hm
  · intro hl
    obtain ⟨ts, ht, hts⟩ := (Yields.lexeme hl l.endsBefore_nil).tokenize_eq
    exact ⟨l.spelling, ts, ht, hts ▸ List.mem_singleton_self l⟩

namespace Layout

/-- The lexemes at all places but those of commas with a closing bracket at the next place. -/
def withoutLastCommas (ls : List Lexeme) : List Lexeme :=
  (ls.zipIdx.filter fun p =>
    ¬ (p.1 = .mark .comma ∧ ls[p.2 + 1]? = some (.mark .closeBracket))).map (·.1)

theorem withoutLastCommas_cons (l : Lexeme) (ls : List Lexeme) : withoutLastCommas (l :: ls) =
    if l = .mark .comma ∧ ls.head? = some (.mark .closeBracket) then withoutLastCommas ls
    else l :: withoutLastCommas ls := by
  have hrest : ((ls.zipIdx 1).filter fun p => ¬ (p.1 = .mark .comma ∧
      (l :: ls)[p.2 + 1]? = some (.mark .closeBracket))).map (·.1) = withoutLastCommas ls := by
    rw [List.zipIdx_succ, List.filter_map, List.map_map]
    rfl
  rw [withoutLastCommas, List.zipIdx_cons, List.filter_cons, List.head?_eq_getElem?]
  by_cases h : l = .mark .comma ∧ ls[0]? = some (.mark .closeBracket) <;> simp [h, ← hrest]

theorem trimCommas_eq (ls : List Lexeme) : trimCommas ls = withoutLastCommas ls := by
  induction ls with
  | nil => rfl
  | cons l ls ih => simp [trimCommas, withoutLastCommas_cons, ih]

/-- Lexemes that texts can have, comments apart, are read again when they are joined, but for the
commas directly in front of closing brackets. -/
theorem tokenize_joined {ls : List Lexeme} (h : ∀ l ∈ ls, l.Occurs ∧ l.isComment = false) :
    ∃ ts, tokenize (joined ls) = .ok ts ∧ ts.map (·.lexeme) = withoutLastCommas ls := by
  have hspelled : ∀ l ∈ ls, l.Spelled := fun l hl => l.occurs_iff_spelled.1 (h l hl).1
  have hline : ∀ l ∈ ls, l.isLineComment = false := fun l hl =>
    Lexeme.isLineComment_eq_false (h l hl).2
  rw [← trimCommas_eq]
  exact (yields_joined hspelled hline (x := []) (by simp [Stops])).tokenize_eq

/-- Words of no script, hardly any of which a blank keeps apart from the next. -/
theorem tokenize_joined_of_tight_words :
    ∃ ls, (∀ l ∈ ls, l.Occurs ∧ l.isComment = false) ∧
      joined ls = "a \"b\\\"\" 5 -3,] x(".toList ∧
      ∃ ts, tokenize (joined ls) = .ok ts ∧ ts.map (·.lexeme) = withoutLastCommas ls := by
  let ls : List Lexeme := [.name "a", .quoted "b\"" "\"b\\\"\"", .number 5 "5", .number (-3) "-3",
    .mark .comma, .mark .comma, .mark .closeBracket, .name "x", .mark .openParen]
  have htext : tokenize "a\"b\\\"\"5-3,,]x (".toList = .ok
      [⟨.name "a", ⟨1, 1⟩, 1⟩, ⟨.quoted "b\"" "\"b\\\"\"", ⟨1, 2⟩, 1⟩, ⟨.number 5 "5", ⟨1, 7⟩, 1⟩,
        ⟨.number (-3) "-3", ⟨1, 8⟩, 1⟩, ⟨.mark .comma, ⟨1, 10⟩, 1⟩, ⟨.mark .comma, ⟨1, 11⟩, 1⟩,
        ⟨.mark .closeBracket, ⟨1, 12⟩, 1⟩, ⟨.name "x", ⟨1, 13⟩, 1⟩,
        ⟨.mark .openParen, ⟨1, 15⟩, 1⟩] := by
    decide +kernel
  have hls : ∀ l ∈ ls, l.Occurs ∧ l.isComment = false := fun l hl =>
    ⟨⟨_, _, htext, hl⟩, by revert l; decide⟩
  exact ⟨ls, hls, by decide +kernel, tokenize_joined hls⟩

end Layout

end KeyRemap
