import KeyRemap.Proofs.Layout.Preservation

/-!
# The groups of a script

The pieces of a text that is read are comments, statements, headers and closing braces
(`nested_pieces`). The words of each make up a whole group wherever they stand
(`Complete.takeGroup_eq`), and laid out once they are laid out again as if they had not been
(`Complete.groupLines_groupLexemes`): a comma behind the keys of a list makes no difference to its
lines.
-/
namespace KeyRemap.Layout

/-- The words of a whole group, and how it ends. -/
inductive Complete : List Lexeme → Ending → Prop
  | statement {ls : List Lexeme} {m : Mapping} (h : Grammar.Statement ls m) :
    Complete ls .statement
  | header {word name : String} {ls : List Lexeme} (h : Grammar.Header word ls name) :
    Complete ls .opens
  | brace : Complete [.mark .closeBrace] .closes

namespace Complete

variable {ls : List Lexeme} {e : Ending}

theorem allWords (h : Complete ls e) : AllWords ls := by
  cases h with
  | statement h => exact h.allWords
  | header h => exact h.allWords
  | brace => simp [AllWords, Lexeme.isComment]

theorem ne_nil (h : Complete ls e) : ls ≠ [] := by
  cases h with
  | statement h => exact h.ne_nil
  | header h => exact h.ne_nil
  | brace => simp

/-- The words of a group are taken as one, with the comments beside the last of them. -/
theorem takeGroup_eq {first : Token} {ts : List Token} (h : Complete (wordsOf (first :: ts)) e)
    (hf : first.isComment = false) (he : EndsInWord ts) (rest : List Token) :
    takeGroup first (ts ++ rest) =
      (⟨first :: ts, e, (splitBeside (lastTokenLine (first :: ts)) rest).1⟩,
        (splitBeside (lastTokenLine (first :: ts)) rest).2) := by
  rw [wordsOf_word hf] at h
  generalize hl : first.lexeme :: wordsOf ts = ls at h
  cases h with
  | statement h =>
    obtain ⟨hn, hends⟩ := endsAt_statement (hl ▸ h)
    exact takeGroup_clause_eq hn hends he rest
  | header h =>
    obtain ⟨hn, hends⟩ := endsAt_header (hl ▸ h)
    exact takeGroup_clause_eq hn hends he rest
  | brace =>
    obtain ⟨hb, hw⟩ := List.cons.inj hl
    obtain rfl := he.eq_nil hw
    exact takeGroup_brace_eq hb rest

/-- So a list of tokens that begins with them begins with the group. -/
theorem pieces_eq {ts : List Token} (h : Complete (wordsOf ts) e)
    (hf : ∀ t ∈ ts.head?, t.isComment = false) (he : EndsInWord ts) (rest : List Token) :
    pieces (ts ++ rest) = .group ⟨ts, e, (splitBeside (lastTokenLine ts) rest).1⟩ ::
      pieces (splitBeside (lastTokenLine ts) rest).2 := by
  cases ts with
  | nil => exact absurd rfl h.ne_nil
  | cons first ts =>
    have hf := hf first rfl
    rw [List.cons_append, pieces, if_neg (by simp [hf]), h.takeGroup_eq hf he.tail]

end Complete

theorem pieces_comments {cs : List Token} (h : ∀ c ∈ cs, c.isComment = true) (ts : List Token) :
    pieces (cs ++ ts) = cs.map .comment ++ pieces ts := by
  induction cs with
  | nil => rfl
  | cons c cs ih =>
    obtain ⟨hc, hcs⟩ := List.forall_mem_cons.1 h
    rw [List.cons_append, pieces, if_pos hc, ih hcs]
    rfl

/-- A comment, or a whole group with comments beside it. -/
def Piece.Regular : Piece → Prop
  | .comment t => t.isComment = true
  | .group g => Complete (g.tokens.map (·.lexeme)) g.ending ∧ ∀ t ∈ g.beside, t.isComment = true

/-- Regular pieces inside so many blocks, of which they close no more than there are. -/
def Nested (level : Nat) : List Piece → Prop
  | [] => True
  | p :: ps =>
    p.Regular ∧ (p.closes = true → 0 < level) ∧
      let level := if p.closes then level - 1 else level
      Nested (if p.opens then level + 1 else level) ps

theorem Nested.regular {level : Nat} {ps : List Piece} (h : Nested level ps) :
    ∀ p ∈ ps, p.Regular := by
  induction ps generalizing level with
  | nil => simp
  | cons p ps ih => exact List.forall_mem_cons.2 ⟨h.1, ih h.2.2⟩

theorem nested_comments {cs : List Token} {level : Nat} {ps : List Piece} :
    Nested level (cs.map .comment ++ ps) ↔ (∀ c ∈ cs, c.isComment = true) ∧ Nested level ps := by
  induction cs with
  | nil => simp
  | cons c cs ih =>
    simp [Nested, Piece.Regular, Piece.closes, Piece.opens, ih, and_assoc]

theorem nested_group {ts : List Token} {e : Ending} (h : Complete (wordsOf ts) e)
    (hf : ∀ t ∈ ts.head?, t.isComment = false) (he : EndsInWord ts) {level : Nat}
    (hl : e = .closes → 0 < level) {rest : List Token}
    (hr : let level := if e = .closes then level - 1 else level
      Nested (if e = .opens then level + 1 else level) (pieces rest)) :
    Nested level (pieces (ts ++ rest)) := by
  have hbeside : ∀ t ∈ (splitBeside (lastTokenLine ts) rest).1, t.isComment = true :=
    isComment_of_mem_splitBeside
  rw [← splitBeside_append (lastTokenLine ts) rest, pieces_comments hbeside,
    nested_comments] at hr
  rw [h.pieces_eq hf he rest]
  refine ⟨⟨h, hbeside⟩, ?_, ?_⟩
  · simpa [Piece.closes] using hl
  · simpa [Piece.closes, Piece.opens] using hr.2

open Script

/-- A text that is read closes the blocks that it opens, and no others. -/
theorem nested_pieces_append {place : Place} {pending : List String} {ts : List Token}
    {d : Document} (h : Says place pending ts d) {level : Nat} {rest : List Token}
    (hr : Nested level (pieces rest)) : Nested level (pieces (ts ++ rest)) := by
  have hbrace {brace : Token} (hb : brace.lexeme = .mark .closeBrace) {level : Nat}
      {vs : List Token} (hv : Nested level (pieces vs)) :
      Nested (level + 1) (pieces (brace :: vs)) := by
    have hf := isComment_of_lexeme hb
    have hcomplete : Complete (wordsOf [brace]) .closes := by
      rw [wordsOf_word hf, hb]
      exact .brace
    rw [← List.singleton_append]
    exact nested_group hcomplete (by simpa using hf) (endsInWord_nil.cons hf) (by simp) hv
  induction h generalizing level rest with
  | done => exact hr
  | comment ht _ ih =>
    rw [List.cons_append, pieces, if_pos ht]
    exact ⟨ht, fun hc => Bool.noConfusion hc, ih hr⟩
  | statement hf he hm _ ih =>
    rw [List.append_assoc]
    exact nested_group (.statement hm) (by simpa using hf) (he.cons hf) (by simp) (ih hr)
  | layer _ hf he hh _ hc _ ihb ih | device hf he hh _ hc _ ihb ih =>
    rw [List.append_assoc, List.append_assoc, List.cons_append]
    exact nested_group (.header hh) (by simpa using hf) (he.cons hf) (by simp)
      (ihb (hbrace hc (ih hr)))

/-- The pieces of a text that is read are comments and whole groups, and their blocks are nested. -/
theorem nested_pieces {place : Place} {pending : List String} {ts : List Token} {d : Document}
    (h : Says place pending ts d) (level : Nat) : Nested level (pieces ts) := by
  have hnil : Nested level (pieces []) := by simp [pieces, Nested]
  have := nested_pieces_append h hnil
  rwa [List.append_nil] at this

variable (layout : Layout)

namespace Complete

/-- Laying out the words of a group leaves them the words of such a group. -/
theorem groupLexemes {ls : List Lexeme} {e : Ending} (h : Complete ls e) (level : Nat) :
    Complete (layout.groupLexemes level ls) e := by
  cases h with
  | statement h => exact .statement (layout.statement_groupLexemes h level)
  | header h =>
    rw [layout.groupLexemes_header h]
    exact .header h
  | brace => simpa [Layout.groupLexemes, splitList?, trimCommas] using Complete.brace

end Complete

/-- A comma behind the keys of a list is not written in front of the bracket. -/
theorem joinedAfter_keys {ls : List Lexeme} {keys : List String} (h : Grammar.Keys ls keys)
    (left : Option Lexeme) (ms : List Lexeme) :
    joinedAfter left (ls ++ .mark .comma :: .mark .closeBracket :: ms) =
      joinedAfter left (ls ++ .mark .closeBracket :: ms) := by
  induction h generalizing left with
  | one key raw => simp [joinedAfter]
  | more key raw h ih =>
    obtain ⟨k, r, ns, more, rfl, -⟩ := h.exists_cons
    simp only [List.cons_append] at ih
    simp [joinedAfter_cons, ih]

/-- Nor does it stand for another member. -/
theorem membersAfter_keys {ls : List Lexeme} {keys : List String} (h : Grammar.Keys ls keys) :
    membersAfter [] (ls ++ [.mark .comma]) = membersAfter [] ls := by
  induction h with
  | one key raw => simp [membersAfter]
  | more key raw h ih => simpa [membersAfter] using ih

/-- The lines of a statement with keys are the same with a comma behind the keys and without. -/
theorem groupLines_keys {ls : List Lexeme} {keys : List String} (hk : Grammar.Keys ls keys)
    {comma : List Lexeme} (hc : comma = [] ∨ comma = [.mark .comma]) (level : Nat)
    (source a : String) :
    layout.groupLines level ([.name "macro", .mark .openParen, .quoted source a, .mark .comma,
        .mark .openBracket] ++ ls ++ comma ++ [.mark .closeBracket, .mark .closeParen] ++
        [.mark .semicolon]) =
      layout.groupLines level ([.name "macro", .mark .openParen, .quoted source a, .mark .comma,
        .mark .openBracket] ++ ls ++
        [.mark .closeBracket, .mark .closeParen, .mark .semicolon]) := by
  rcases hc with rfl | rfl
  · simp
  have hwith := splitList?_keys hk [.mark .comma] source a
  have hwithout := splitList?_keys hk [] source a
  have hjoined := joinedAfter_keys hk (some (.mark .openBracket))
    [.mark .closeParen, .mark .semicolon]
  simp only [List.cons_append, List.nil_append, List.append_assoc] at hwith hwithout ⊢
  simp only [groupLines, hwith, hwithout, membersAfter_keys hk]
  simp [joined, joinedAfter_cons, hjoined]

/-- The words of a group, laid out in one way, have the lines of another as they had before. -/
theorem Complete.groupLines_groupLexemes {ls : List Lexeme} {e : Ending} (h : Complete ls e)
    (other : Layout) (n level : Nat) :
    layout.groupLines level (other.groupLexemes n ls) = layout.groupLines level ls := by
  cases h with
  | statement h =>
    obtain ⟨h⟩ := h
    cases h with
    | sequence source a hk hc =>
      obtain ⟨comma', hc', he⟩ := other.exists_groupLexemes_keys hk hc n source a
      rw [he, layout.groupLines_keys hk hc, layout.groupLines_keys hk hc']
    | _ => simp [Layout.groupLexemes, splitList?, trimCommas]
  | header h => rw [other.groupLexemes_header h]
  | brace => simp [Layout.groupLexemes, splitList?, trimCommas]

end KeyRemap.Layout
