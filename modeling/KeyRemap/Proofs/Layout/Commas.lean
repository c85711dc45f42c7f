import KeyRemap.Proofs.Layout.Preservation
import KeyRemap.Proofs.Script.Grammatical

/-!
# Commas that a layout drops

A layout drops the comma in front of a closing bracket, or puts one there, and where it gives each
member of a list a line it drops the commas without a member. So it can make a script of what is
none (`parse_format_missing_member`). It does so only if a list has a gap: otherwise a text is read
when it is laid out just when it was read before (`exists_parse_format_iff`). The words of such a
text change in front of closing brackets only (`Repunctuated`), where the grammar does not care.
-/
namespace KeyRemap.Layout

/-- The same lexemes, but for a comma dropped or added in front of closing brackets. -/
inductive Repunctuated : List Lexeme → List Lexeme → Prop
  | nil : Repunctuated [] []
  | cons (l : Lexeme) {ls ms : List Lexeme} (h : Repunctuated ls ms) :
    Repunctuated (l :: ls) (l :: ms)
  | drop {ls ms : List Lexeme} (h : Repunctuated ls ms) :
    Repunctuated (.mark .comma :: .mark .closeBracket :: ls) (.mark .closeBracket :: ms)
  | add {ls ms : List Lexeme} (h : Repunctuated ls ms) :
    Repunctuated (.mark .closeBracket :: ls) (.mark .comma :: .mark .closeBracket :: ms)

namespace Repunctuated

variable {as bs ls ms : List Lexeme}

theorem refl (ls : List Lexeme) : Repunctuated ls ls := by
  induction ls with
  | nil => exact nil
  | cons l ls ih => exact ih.cons l

theorem append (ha : Repunctuated as bs) (hl : Repunctuated ls ms) :
    Repunctuated (as ++ ls) (bs ++ ms) := by
  induction ha with
  | nil => exact hl
  | cons l _ ih => exact ih.cons l
  | drop _ ih => exact ih.drop
  | add _ ih => exact ih.add

theorem allWords (h : Repunctuated ls ms) (hl : AllWords ls) : AllWords ms := by
  induction h with
  | nil => exact hl
  | cons l _ ih =>
    obtain ⟨hl, hls⟩ := List.forall_mem_cons.1 hl
    exact List.forall_mem_cons.2 ⟨hl, ih hls⟩
  | drop _ ih =>
    obtain ⟨-, hl⟩ := List.forall_mem_cons.1 hl
    obtain ⟨hb, hls⟩ := List.forall_mem_cons.1 hl
    exact List.forall_mem_cons.2 ⟨hb, ih hls⟩
  | add _ ih =>
    obtain ⟨hb, hls⟩ := List.forall_mem_cons.1 hl
    exact List.forall_mem_cons.2 ⟨rfl, List.forall_mem_cons.2 ⟨hb, ih hls⟩⟩

theorem trimCommas (ls : List Lexeme) : Repunctuated ls (trimCommas ls) := by
  induction ls with
  | nil => exact nil
  | cons l ls ih =>
    rw [Layout.trimCommas]
    split
    · rename_i h
      rw [Bool.and_eq_true, decide_eq_true_eq, decide_eq_true_eq] at h
      obtain ⟨rfl, hb⟩ := h
      obtain ⟨b, ls, rfl⟩ := List.exists_cons_of_ne_nil (l := ls) (by rintro rfl; cases hb)
      cases hb
      have hbracket : Layout.trimCommas (.mark .closeBracket :: ls) =
          .mark .closeBracket :: Layout.trimCommas ls := by
        simp [Layout.trimCommas]
      rw [hbracket] at ih ⊢
      cases ih with
      | cons _ h => exact h.drop
    · exact ih.cons l

end Repunctuated

/-- No comma stands directly behind an opening bracket or a comma: between the commas of a list
there are members. -/
def Gapless (ls : List Lexeme) : Prop :=
  ls.IsChain fun a b => b = .mark .comma → a ≠ .mark .openBracket ∧ a ≠ .mark .comma

instance (ls : List Lexeme) : Decidable (Gapless ls) :=
  inferInstanceAs (Decidable (List.IsChain _ _))

theorem trimCommas_eq_self {ls : List Lexeme} (h : .mark .comma ∉ ls) : trimCommas ls = ls := by
  induction ls with
  | nil => rfl
  | cons l ls ih =>
    rw [List.mem_cons, not_or] at h
    simp [trimCommas, Ne.symm h.1, ih h.2]

/-- The members of a list without gaps are the list, with a comma at its end if it had none. -/
theorem flatMap_membersAfter {current ls : List Lexeme} (hc : .mark .comma ∉ current)
    (hn : current = [] → ls.head? ≠ some (.mark .comma)) (hg : Gapless ls) :
    (membersAfter current ls).flatMap (fun m => trimCommas m ++ [.mark .comma]) = current ++ ls ∨
      (membersAfter current ls).flatMap (fun m => trimCommas m ++ [.mark .comma]) =
        current ++ ls ++ [.mark .comma] := by
  induction ls generalizing current with
  | nil =>
    unfold membersAfter
    split
    · rename_i h
      exact .inl (by simp [List.isEmpty_iff.1 h])
    · exact .inr (by simp [trimCommas_eq_self hc])
  | cons l ls ih =>
    have hls : Gapless ls := hg.tail
    unfold membersAfter
    split
    · rename_i hl
      subst hl
      have hne : current ≠ [] := fun h => hn h rfl
      have hnext : ls.head? ≠ some (.mark .comma) := by
        intro h
        obtain ⟨ms, rfl⟩ : ∃ ms, ls = .mark .comma :: ms := by
          cases ls <;> simp_all
        simpa using (List.isChain_cons_cons.1 hg).1
      have := ih List.not_mem_nil (fun _ => hnext) hls
      simpa [hne, trimCommas_eq_self hc] using this
    · rename_i hl
      have hcl : .mark .comma ∉ current ++ [l] := by simpa [hc] using Ne.symm hl
      have := ih hcl (by simp) hls
      simpa using this

variable (layout : Layout)

/-- A layout drops and adds commas in front of closing brackets only, if a list has no gaps. -/
theorem repunctuated_groupLexemes {ls : List Lexeme} (h : Gapless ls) (level : Nat) :
    Repunctuated ls (layout.groupLexemes level ls) := by
  unfold groupLexemes
  cases hs : splitList? ls with
  | none => exact .trimCommas ls
  | some parts =>
    obtain ⟨front, members, back⟩ := parts
    simp only
    split
    · exact .trimCommas ls
    · obtain ⟨head, tail, rfl, rfl, rfl, -, -⟩ := splitList?_eq_some hs
      obtain ⟨hfm, -, -⟩ := List.isChain_append.1 h
      obtain ⟨-, hm, hjoin⟩ := List.isChain_append.1 hfm
      have hfirst : members.head? ≠ some (.mark .comma) := fun hc =>
        (hjoin (.mark .openBracket) (by simp) (.mark .comma) hc rfl).1 rfl
      have hback : trimCommas (.mark .closeBracket :: tail) =
          .mark .closeBracket :: trimCommas tail := by
        simp [trimCommas]
      have htail := (Repunctuated.trimCommas tail)
      have hfront := Repunctuated.trimCommas (head ++ [.mark .openBracket])
      rw [hback]
      rcases flatMap_membersAfter List.not_mem_nil (fun _ => hfirst) hm with he | he
      · rw [he]
        exact (hfront.append (.refl members)).append (htail.cons _)
      · rw [he]
        simpa using (hfront.append (.refl members)).append htail.add

/-- The words of a group without gaps as it is laid out. -/
theorem repunctuated_pieceLexemes {g : Group} (hb : ∀ t ∈ g.beside, t.isComment = true)
    (hg : Gapless (g.tokens.map (·.lexeme))) (level : Nat) :
    Repunctuated (g.tokens.map (·.lexeme))
      ((layout.pieceLexemes level (.group g)).filter (!·.isComment)) := by
  have hrep := layout.repunctuated_groupLexemes hg level
  have hwords : AllWords (g.tokens.map (·.lexeme)) := by
    simp only [AllWords, List.forall_mem_map]
    exact fun t ht => by simpa [Token.isComment] using (List.mem_filter.1 ht).2
  have hcomments : ((g.inner ++ g.beside).map (·.lexeme)).filter (!·.isComment) = [] := by
    rw [List.filter_eq_nil_iff]
    simp only [List.forall_mem_map, List.forall_mem_append]
    exact ⟨fun t ht => by simpa [Token.isComment] using (List.mem_filter.1 ht).2,
      fun t ht => by simpa [Token.isComment] using hb t ht⟩
  have hkept : (layout.groupLexemes level (g.tokens.map (·.lexeme))).filter (!·.isComment) =
      layout.groupLexemes level (g.tokens.map (·.lexeme)) := by
    rw [List.filter_eq_self]
    simpa [AllWords] using hrep.allWords hwords
  rw [pieceLexemes, List.filter_append, hcomments, hkept, List.append_nil]
  exact hrep

/-- The words of tokens without gaps as they are laid out. -/
theorem repunctuated_lexemesAt {ts : List Token} (h : Gapless (wordsOf ts)) (level : Nat) :
    Repunctuated (wordsOf ts) ((layout.lexemesAt level ts).filter (!·.isComment)) := by
  unfold lexemesAt
  fun_induction pieces ts generalizing level with
  | case1 => exact .nil
  | case2 t ts ht ih =>
    rw [wordsOf_comment ht] at h ⊢
    have hc : t.lexeme.isComment = true := ht
    simpa [piecesLexemes, pieceLexemes, hc] using ih h _
  | case3 t ts ht ih =>
    obtain ⟨line, us, -, hb, -⟩ := exists_takeGroup t ts
    have hbeside : ∀ c ∈ (takeGroup t ts).1.beside, c.isComment = true :=
      hb ▸ isComment_of_mem_splitBeside
    have hnone : wordsOf (takeGroup t ts).1.beside = [] :=
      List.map_eq_nil_iff.2 (wordTokens_eq_nil_iff.2 hbeside)
    have hwords : wordsOf (t :: ts) =
        (takeGroup t ts).1.tokens.map (·.lexeme) ++ wordsOf (takeGroup t ts).2 := by
      conv_lhs => rw [← takeGroup_append t ts]
      rw [wordsOf_append, wordsOf_append, hnone, List.append_nil]
      rfl
    rw [hwords] at h ⊢
    obtain ⟨hgroup, hrest, -⟩ := List.isChain_append.1 h
    rw [piecesLexemes, List.filter_append]
    exact (layout.repunctuated_pieceLexemes hbeside hgroup _).append (ih hrest _)

namespace Repunctuated

variable {ls ms ws : List Lexeme}

/-- Lexemes in front of which and behind which no comma was dropped or added were there before. -/
theorem exists_append (h : Repunctuated ws (ls ++ ms)) (hb : .mark .closeBracket ∉ ls)
    (hl : ls.getLast? ≠ some (.mark .comma)) : ∃ vs, ws = ls ++ vs ∧ Repunctuated vs ms := by
  induction ls generalizing ws with
  | nil => exact ⟨ws, rfl, h⟩
  | cons l ls ih =>
    rw [List.mem_cons, not_or] at hb
    have hlast : ls.getLast? ≠ some (.mark .comma) := by
      cases ls with
      | nil => simp
      | cons => simpa using hl
    generalize hrest : ls ++ ms = rest at h ih
    rw [List.cons_append, hrest] at h
    cases h with
    | cons _ h =>
      obtain ⟨vs, rfl, hv⟩ := ih h hb.2 hlast
      exact ⟨vs, rfl, hv⟩
    | drop => exact absurd rfl hb.1
    | add =>
      cases ls with
      | nil => exact absurd rfl hl
      | cons l ls =>
        obtain ⟨rfl, -⟩ := List.cons.inj hrest
        exact absurd List.mem_cons_self hb.2

/-- The end of a list without gaps had at most one comma in front of the bracket. -/
theorem exists_closing {comma : List Lexeme} (hc : comma = [] ∨ comma = [.mark .comma])
    (h : Repunctuated ws (comma ++ .mark .closeBracket :: ms)) (hg : Gapless ws) :
    ∃ comma' vs, (comma' = [] ∨ comma' = [.mark .comma]) ∧
      ws = comma' ++ .mark .closeBracket :: vs ∧ Repunctuated vs ms := by
  have hend {ws : List Lexeme} (h : Repunctuated ws (.mark .closeBracket :: ms)) :
      ∃ comma' vs, (comma' = [] ∨ comma' = [.mark .comma]) ∧
        ws = comma' ++ .mark .closeBracket :: vs ∧ Repunctuated vs ms := by
    cases h with
    | cons _ h => exact ⟨[], _, .inl rfl, rfl, h⟩
    | drop h => exact ⟨[.mark .comma], _, .inr rfl, rfl, h⟩
  rcases hc with rfl | rfl
  · exact hend h
  · cases h with
    | cons _ h =>
      obtain ⟨comma', vs, rfl | rfl, rfl, hv⟩ := hend h
      · exact ⟨[.mark .comma], vs, .inr rfl, rfl, hv⟩
      · simpa using (List.isChain_cons_cons.1 hg).1
    | add h => exact ⟨[], _, .inl rfl, rfl, h⟩

end Repunctuated

open Script Grammar

theorem getLast?_keys {ls : List Lexeme} {keys : List String} (h : Keys ls keys) :
    ∃ key raw, ls.getLast? = some (.quoted key raw) := by
  induction h with
  | one key raw => exact ⟨key, raw, rfl⟩
  | more key raw _ ih =>
    obtain ⟨k, r, hl⟩ := ih
    exact ⟨k, r, by simp [List.getLast?_cons, hl]⟩

/-- A statement behind which more follows was a statement before. -/
theorem exists_statement_of_repunctuated {ls ms ws : List Lexeme} {m : Mapping}
    (h : Statement ls m) (hr : Repunctuated ws (ls ++ ms)) (hg : Gapless ws) :
    ∃ ls' vs, ws = ls' ++ vs ∧ Statement ls' m ∧ Repunctuated vs ms := by
  obtain ⟨hcall⟩ := h
  cases hcall with
  | @sequence source a ls keys hk comma hc =>
    obtain ⟨key, raw, hl⟩ := getLast?_keys hk
    have hn : .mark .closeBracket ∉ ls := fun hm => by cases hk.eq_comma_of_mem hm
    simp only [List.append_assoc] at hr
    rw [← List.append_assoc] at hr
    obtain ⟨vs, rfl, hv⟩ := hr.exists_append (by simpa using hn)
      (by rw [List.getLast?_append, hl]; simp)
    obtain ⟨comma', us, hc', rfl, hu⟩ := hv.exists_closing hc hg.right_of_append
    change Repunctuated us ([.mark .closeParen, .mark .semicolon] ++ _) at hu
    obtain ⟨ts, rfl, ht⟩ := hu.exists_append (by simp) (by simp)
    refine ⟨_, ts, ?_, .mk (.sequence source a hk hc'), ht⟩
    simp
  | _ =>
    obtain ⟨vs, rfl, hv⟩ := hr.exists_append (by simp) (by simp)
    exact ⟨_, vs, rfl, .mk (by constructor), hv⟩

/-- Whenever something with these lexemes in front comes of lexemes without gaps, those had
something in front that the grammar has in the place. -/
def Restores (place : Place) (ls : List Lexeme) : Prop :=
  ∀ {ms ws : List Lexeme}, Repunctuated ws (ls ++ ms) → Gapless ws →
    ∃ ls' vs, ws = ls' ++ vs ∧ Grammatical place ls' ∧ Repunctuated vs ms

theorem exists_block_of_repunctuated {word name : String} {ls bs ms rest ws : List Lexeme}
    {inner place : Place} (h : Header word ls name) (hb : Restores inner bs)
    (hm : Restores place ms)
    (hr : Repunctuated ws (ls ++ bs ++ .mark .closeBrace :: ms ++ rest)) (hg : Gapless ws) :
    ∃ bs' ms' vs, ws = ls ++ bs' ++ .mark .closeBrace :: ms' ++ vs ∧ Grammatical inner bs' ∧
      Grammatical place ms' ∧ Repunctuated vs rest := by
  rw [List.append_assoc, List.append_assoc] at hr
  obtain ⟨xs, rfl, hx⟩ := hr.exists_append (by cases h; simp) (by cases h; simp)
  obtain ⟨bs', ys, rfl, hbody, hy⟩ := hb hx hg.right_of_append
  change Repunctuated ys ([.mark .closeBrace] ++ _) at hy
  obtain ⟨zs, rfl, hz⟩ := hy.exists_append (by simp) (by simp)
  obtain ⟨ms', vs, rfl, hrest, hv⟩ :=
    hm hz hg.right_of_append.right_of_append.right_of_append
  exact ⟨bs', ms', vs, by simp, hbody, hrest, hv⟩

theorem restores_of_grammatical {place : Place} {ls : List Lexeme} (h : Grammatical place ls) :
    Restores place ls := by
  induction h with
  | none place => exact fun {_ ws} hr _ => ⟨[], ws, rfl, .none place, hr⟩
  | statement h _ ih =>
    intro _ _ hr hg
    rw [List.append_assoc] at hr
    obtain ⟨ls', vs, rfl, hs, hv⟩ := exists_statement_of_repunctuated h hr hg
    obtain ⟨ms', us, rfl, hm, hu⟩ := ih hv hg.right_of_append
    exact ⟨ls' ++ ms', us, by simp, .statement hs hm, hu⟩
  | layer hp h _ _ ihb ih =>
    intro _ _ hr hg
    obtain ⟨bs', ms', vs, rfl, hb, hm, hv⟩ := exists_block_of_repunctuated h ihb ih hr hg
    exact ⟨_, vs, rfl, .layer hp h hb hm, hv⟩
  | device h _ _ ihb ih =>
    intro _ _ hr hg
    obtain ⟨bs', ms', vs, rfl, hb, hm, hv⟩ := exists_block_of_repunctuated h ihb ih hr hg
    exact ⟨_, vs, rfl, .device h hb hm, hv⟩

/-- Words without gaps that the grammar has after they were laid out, it had before. -/
theorem grammatical_of_repunctuated {place : Place} {ls ws : List Lexeme}
    (h : Grammatical place ls) (hr : Repunctuated ws ls) (hg : Gapless ws) :
    Grammatical place ws := by
  rw [← List.append_nil ls] at hr
  obtain ⟨ls', vs, rfl, hl, hv⟩ := restores_of_grammatical h hr hg
  cases hv
  rwa [List.append_nil]

/-- A text without gaps in its lists is read when it is laid out just when it was read before. -/
theorem exists_parse_format_iff {text : List Char} {ts : List Token} (ht : tokenize text = .ok ts)
    (hg : Gapless (wordsOf ts)) :
    (∃ d, parse (layout.format text) = .ok d) ↔ ∃ d, parse text = .ok d := by
  constructor
  · intro h
    obtain ⟨us, hu, hgrammar⟩ := exists_parse_iff.1 h
    obtain ⟨vs, hv, hl⟩ := layout.tokenize_format ht
    obtain rfl := Except.ok.inj (hu.symm.trans hv)
    rw [wordsOf_eq_filter, hl] at hgrammar
    exact exists_parse_iff.2
      ⟨ts, ht, grammatical_of_repunctuated hgrammar (layout.repunctuated_lexemesAt hg 0) hg⟩
  · rintro ⟨d, hd⟩
    obtain ⟨us, hu, hs⟩ := parse_eq_ok_iff.1 hd
    obtain ⟨d', hd', -⟩ := layout.exists_says_format hu hs
    exact ⟨d', hd'⟩

/-- A macro without a source key, which loses the comma behind its keys. -/
theorem exists_parse_format_iff_of_macro :
    (∃ d, parse (format {} "macro([\"B\",]);".toList) = .ok d) ↔
      ∃ d, parse "macro([\"B\",]);".toList = .ok d := by
  have ht : tokenize "macro([\"B\",]);".toList =
      .ok [⟨.name "macro", ⟨1, 1⟩, 1⟩, ⟨.mark .openParen, ⟨1, 6⟩, 1⟩,
        ⟨.mark .openBracket, ⟨1, 7⟩, 1⟩, ⟨.quoted "B" "\"B\"", ⟨1, 8⟩, 1⟩,
        ⟨.mark .comma, ⟨1, 11⟩, 1⟩, ⟨.mark .closeBracket, ⟨1, 12⟩, 1⟩,
        ⟨.mark .closeParen, ⟨1, 13⟩, 1⟩, ⟨.mark .semicolon, ⟨1, 14⟩, 1⟩] := by decide +kernel
  exact exists_parse_format_iff {} ht (by decide)

/-- A list with a member missing is no list, but on lines of its own it becomes one: the layout
drops the comma that has no member in front. -/
theorem parse_format_missing_member :
    (∃ ts, tokenize "macro(\"A\", [\"B\",,\"C\"]);".toList = .ok ts) ∧
      (¬ ∃ d, parse "macro(\"A\", [\"B\",,\"C\"]);".toList = .ok d) ∧
      ∃ d,
        parse (format { maxLineLength := 8 } "macro(\"A\", [\"B\",,\"C\"]);".toList) = .ok d := by
  have hrefused : parse "macro(\"A\", [\"B\",,\"C\"]);".toList =
      .error ⟨⟨1, 17⟩, .unexpected (.string "macro") (.mark .comma)⟩ := by decide +kernel
  have hread : parse (format { maxLineLength := 8 } "macro(\"A\", [\"B\",,\"C\"]);".toList) =
      .ok { entries := [⟨.sequence "A" ["B", "C"], [], ⟨1, 1⟩⟩] } := by decide +kernel
  refine ⟨?_, fun ⟨d, hd⟩ => ?_, _, hread⟩
  · cases ht : tokenize "macro(\"A\", [\"B\",,\"C\"]);".toList with
    | ok ts => exact ⟨ts, rfl⟩
    | error e =>
      rw [parse, ht] at hrefused
      simp [LexicalError.toSyntaxError] at hrefused
  · rw [hrefused] at hd
    cases hd

end KeyRemap.Layout
