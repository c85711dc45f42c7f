import KeyRemap.Proofs.Layout.Preservation

/-!
# A layout keeps all comments

Of any text that consists of tokens, be it a script or not, the layout has the same comments in the
same order, and but for commas the same words (`comments_format`). Comments leave a group in the
order in which they were taken into it, and what is told of lexemes without looking at commas is
told of a group as of its layout (`filter_groupLexemes`).
-/
namespace KeyRemap.Layout

section Filters

variable {p : Lexeme → Bool} (hp : p (.mark .comma) = false)

include hp

theorem filter_trimCommas (ls : List Lexeme) : (trimCommas ls).filter p = ls.filter p := by
  induction ls with
  | nil => rfl
  | cons l ls ih =>
    rw [trimCommas]
    split
    · rename_i h
      obtain rfl : l = .mark .comma := by simpa using And.left (by simpa using h)
      rw [ih, List.filter_cons_of_neg (by simp [hp])]
    · rw [List.filter_cons, List.filter_cons, ih]

/-- The members of a list are what stands between its commas. -/
theorem filter_flatMap_membersAfter (current ls : List Lexeme) :
    ((membersAfter current ls).flatMap fun m => trimCommas m ++ [.mark .comma]).filter p =
      (current ++ ls).filter p := by
  have hmember (m : List Lexeme) :
      (trimCommas m ++ [Lexeme.mark .comma]).filter p = m.filter p := by
    rw [List.filter_append, filter_trimCommas hp, List.filter_cons_of_neg (by simp [hp]),
      List.filter_nil, List.append_nil]
  have hcurrent (ms : List Lexeme) : ((if ms.isEmpty then [] else [ms]).flatMap
      fun m => trimCommas m ++ [.mark .comma]).filter p = ms.filter p := by
    split
    · rename_i h
      rw [List.isEmpty_iff.1 h]
      rfl
    · rw [List.flatMap_singleton, hmember]
  induction ls generalizing current with
  | nil => rw [membersAfter, hcurrent, List.append_nil]
  | cons l ls ih =>
    rw [membersAfter]
    split
    · rename_i h
      rw [List.flatMap_append, List.filter_append, hcurrent, ih, h, List.nil_append,
        List.filter_append, List.filter_cons_of_neg (by simp [hp])]
    · rw [ih, List.append_assoc, List.singleton_append]

variable (layout : Layout)

/-- A layout changes a group in nothing but commas. -/
theorem filter_groupLexemes (level : Nat) (ls : List Lexeme) :
    (layout.groupLexemes level ls).filter p = ls.filter p := by
  unfold groupLexemes
  cases hs : splitList? ls with
  | none => exact filter_trimCommas hp ls
  | some parts =>
    obtain ⟨front, members, back⟩ := parts
    simp only
    split
    · exact filter_trimCommas hp ls
    · obtain ⟨-, -, -, -, rfl, -, -⟩ := splitList?_eq_some hs
      have hmembers := filter_flatMap_membersAfter hp [] members
      rw [List.nil_append] at hmembers
      simp only [List.filter_append, filter_trimCommas hp, hmembers]

variable {kind : Bool} (hk : ∀ l, p l = true → l.isComment = kind)

include hk

/-- Comments alone, or words alone, are in the layout of a group in the order in which they were in
the text. -/
theorem filter_pieceLexemes {g : Group} (hb : ∀ t ∈ g.beside, t.isComment = true) (level : Nat) :
    (layout.pieceLexemes level (.group g)).filter p =
      ((g.taken ++ g.beside).map (·.lexeme)).filter p := by
  have hother {ts : List Token} (ho : ∀ t ∈ ts, t.isComment = !kind) :
      (ts.map (·.lexeme)).filter p = [] := by
    rw [List.filter_eq_nil_iff, List.forall_mem_map]
    intro t ht hl
    have hne := (hk t.lexeme hl).symm.trans (ho t ht)
    cases kind <;> cases hne
  have htaken (test : Token → Bool) (ht : ∀ t, p t.lexeme = true → test t = true) :
      ((g.taken.filter test).map (·.lexeme)).filter p = (g.taken.map (·.lexeme)).filter p := by
    rw [List.filter_map, List.filter_map, List.filter_filter]
    congr 1
    refine List.filter_congr fun t _ => ?_
    cases hl : p t.lexeme with
    | true => simp [hl, ht t hl]
    | false => simp [hl]
  rw [pieceLexemes, List.filter_append, filter_groupLexemes hp layout, List.map_append,
    List.map_append, List.filter_append, List.filter_append]
  cases kind with
  | true =>
    have hwords : (g.tokens.map (·.lexeme)).filter p = [] :=
      hother fun t ht => by simpa using (List.mem_filter.1 ht).2
    rw [hwords, List.nil_append]
    exact congrArg (· ++ _) (htaken _ fun t hl => hk t.lexeme hl)
  | false =>
    have hinner : (g.inner.map (·.lexeme)).filter p = [] :=
      hother fun t ht => by simpa using (List.mem_filter.1 ht).2
    rw [hinner, hother hb, List.nil_append, List.append_nil]
    refine (htaken _ fun t hl => ?_).trans (List.append_nil _).symm
    simpa [Token.isComment] using hk t.lexeme hl

/-- Comments alone, or words alone, are in the layout of a text in the order in which they were in
the text. -/
theorem filter_lexemesAt (level : Nat) (ts : List Token) :
    (layout.lexemesAt level ts).filter p = (ts.map (·.lexeme)).filter p := by
  unfold lexemesAt
  fun_induction pieces ts generalizing level with
  | case1 => rfl
  | case2 t ts ht ih =>
    rw [piecesLexemes, pieceLexemes, List.singleton_append, List.map_cons, List.filter_cons,
      List.filter_cons, ih]
  | case3 t ts ht ih =>
    obtain ⟨line, us, -, hbeside, -⟩ := exists_takeGroup t ts
    have hb : ∀ c ∈ (takeGroup t ts).1.beside, c.isComment = true :=
      hbeside ▸ isComment_of_mem_splitBeside
    have hall := filter_pieceLexemes hp layout hk hb
    rw [piecesLexemes, List.filter_append, hall, ih, ← List.filter_append, ← List.map_append,
      takeGroup_append]

end Filters

variable (layout : Layout)

theorem mem_lexemesAt_iff {l : Lexeme} (hl : l ≠ .mark .comma) {level : Nat} {ts : List Token} :
    l ∈ layout.lexemesAt level ts ↔ l ∈ ts.map (·.lexeme) := by
  have hkind : ∀ k : Lexeme, decide (k = l) = true → k.isComment = l.isComment := fun k hk => by
    rw [of_decide_eq_true hk]
  have hsame := filter_lexemesAt (p := (· = l)) (by simpa using hl.symm) layout hkind level ts
  have hmem (ls : List Lexeme) : l ∈ ls ↔ l ∈ ls.filter (· = l) := by simp
  rw [hmem, hsame, ← hmem]

/-- A text that consists of tokens can be laid out. The layout consists of tokens with the same
comments in the same order, and with the same words in the same order but for commas. -/
theorem comments_format {text : List Char} {ts : List Token} (h : tokenize text = .ok ts) :
    ∃ formatted us, layout.format? text = .ok formatted ∧ tokenize formatted = .ok us ∧
      (commentTokens us).map (·.lexeme) = (commentTokens ts).map (·.lexeme) ∧
      (wordsOf us).filter (· ≠ .mark .comma) = (wordsOf ts).filter (· ≠ .mark .comma) := by
  obtain ⟨us, hu, hl⟩ := layout.tokenize_format h
  rw [layout.format_of_tokenize h] at hu
  have hfilter {p : Lexeme → Bool} (kind : Bool) (hp : p (.mark .comma) = false)
      (hk : ∀ l, p l = true → l.isComment = kind) :
      (us.map (·.lexeme)).filter p = (ts.map (·.lexeme)).filter p := by
    rw [hl]
    exact filter_lexemesAt hp layout hk 0 ts
  have hcomments (vs : List Token) : (commentTokens vs).map (·.lexeme) =
      (vs.map (·.lexeme)).filter (·.isComment) := List.filter_map.symm
  have hwords (vs : List Token) : (wordsOf vs).filter (· ≠ .mark .comma) =
      (vs.map (·.lexeme)).filter fun l => decide (l ≠ .mark .comma) && !l.isComment := by
    rw [wordsOf_eq_filter, List.filter_filter]
  refine ⟨_, us, ?_, hu, ?_, ?_⟩
  · rw [format?, h]
    rfl
  · rw [hcomments, hcomments]
    exact hfilter true rfl fun l hl => hl
  · rw [hwords, hwords]
    exact hfilter false rfl fun l hl => by simpa using And.right (by simpa using hl)

/-- Comments inside a statement that a brace interrupts, the last of them below its last word. -/
theorem comments_format_interrupted :
    ∃ ts formatted us,
      tokenize "map(\"A\" // a\n /* b\n */ , // c\n // d\n \x7d /* e */".toList = .ok ts ∧
      format? {} "map(\"A\" // a\n /* b\n */ , // c\n // d\n \x7d /* e */".toList =
        .ok formatted ∧
      tokenize formatted = .ok us ∧
      (commentTokens us).map (·.lexeme) =
        [.lineComment "// a", .blockComment "/* b\n */", .lineComment "// c", .lineComment "// d",
          .blockComment "/* e */"] ∧
      (wordsOf us).filter (· ≠ .mark .comma) =
        [.name "map", .mark .openParen, .quoted "A" "\"A\"", .mark .closeBrace] := by
  have ht : tokenize "map(\"A\" // a\n /* b\n */ , // c\n // d\n \x7d /* e */".toList =
      .ok [⟨.name "map", ⟨1, 1⟩, 1⟩, ⟨.mark .openParen, ⟨1, 4⟩, 1⟩,
        ⟨.quoted "A" "\"A\"", ⟨1, 5⟩, 1⟩, ⟨.lineComment "// a", ⟨1, 9⟩, 1⟩,
        ⟨.blockComment "/* b\n */", ⟨2, 2⟩, 3⟩,
        ⟨.mark .comma, ⟨3, 5⟩, 3⟩, ⟨.lineComment "// c", ⟨3, 7⟩, 3⟩,
        ⟨.lineComment "// d", ⟨4, 2⟩, 4⟩, ⟨.mark .closeBrace, ⟨5, 2⟩, 5⟩,
        ⟨.blockComment "/* e */", ⟨5, 4⟩, 5⟩] := by decide +kernel
  obtain ⟨formatted, us, hf, hu, hcomments, hwords⟩ := comments_format {} ht
  exact ⟨_, formatted, us, ht, hf, hu, hcomments, hwords⟩

end KeyRemap.Layout
