import KeyRemap.Proofs.Layout.Alignment
import KeyRemap.Proofs.Layout.Comments

/-!
# The rules of a layout

A text that is read is laid out by the rules (`tidy_format`), if none of its comments goes on over
the end of a line. The rules are told of the lines and of the tokens that are read from them again
(`Tidy`), so that they do not mention how the lines came about.
-/
namespace KeyRemap.Layout

open Text

variable (layout : Layout)

/-- Lines that keep the rules of a layout, with the tokens on them; the line of the list with index
`i` is the line `i + 1` of the text. -/
structure Tidy (lines : List (List Char)) (us : List Token) : Prop where
  newline : ∀ line ∈ lines, '\n' ∉ line
  /-- Every line that is not empty is aligned. -/
  aligned : ∀ i line, lines[i]? = some line → line ≠ [] →
    layout.Aligned (lexemesAbove us (i + 1)) (lexemesOn us (i + 1)) line
  /-- Every empty line is allowed and stands between two that are not empty, the upper one without
  an opening brace, the lower one without a closing brace in front. -/
  blank : ∀ i, lines[i]? = some [] → layout.collapseBlankLines = true ∧
    ∃ j upper lower, i = j + 1 ∧ lines[j]? = some upper ∧ upper ≠ [] ∧
      .mark .openBrace ∉ lexemesOn us i ∧ lines[i + 1]? = some lower ∧ lower ≠ [] ∧
      (lexemesOn us (i + 2)).head? ≠ some (.mark .closeBrace)

variable {layout}

theorem Laid.tidy {lines : List (List Char)} {rows : List (List Lexeme)} {us : List Token} {m : Nat}
    (h : layout.Laid [] none lines rows) (hs : Stacked 1 rows us m)
    (hu : ∀ t ∈ us, t.endLine = t.position.line) : layout.Tidy lines us := by
  have habove (i : Nat) : lexemesAbove us (i + 1) = (rows.take i).flatten := by
    rw [Nat.add_comm, hs.lexemesAbove_eq hu]
  have hon {i : Nat} {row : List Lexeme} (hr : rows[i]? = some row) :
      lexemesOn us (i + 1) = row := by
    rw [Nat.add_comm, hs.lexemesOn_eq hu, hr, Option.getD_some]
  refine ⟨h.newline_notMem, fun i line hl hne => ?_, fun i hl => ?_⟩
  · obtain ⟨row, hr, ha⟩ := h.aligned hl hne
    rw [habove, hon hr]
    exact ha
  · cases i with
    | zero =>
      obtain ⟨-, ⟨row, hr, -⟩, -⟩ := h.blank_first hl
      cases hr
    | succ j =>
      obtain ⟨hc, ⟨upper, row, hup, hupne, hr, ho⟩, lower, row', hlow, hlowne, hr', hh⟩ :=
        h.blank_between hl
      refine ⟨hc, j, upper, lower, rfl, hup, hupne, ?_, hlow, hlowne, ?_⟩
      · rwa [hon hr]
      · rwa [hon hr']

/-- A text with such lines ends with one line end. -/
theorem Tidy.exists_ofLines_eq {lines : List (List Char)} {us : List Token}
    (h : layout.Tidy lines us) (hne : lines ≠ []) :
    ∃ front c, ofLines lines = front ++ [c, '\n'] ∧ c ≠ '\n' := by
  obtain ⟨init, last, rfl⟩ : ∃ init last, lines = init ++ [last] :=
    ⟨_, _, (List.dropLast_append_getLast hne).symm⟩
  have hlast : (init ++ [last])[init.length]? = some last := by simp
  have hlastne : last ≠ [] := by
    rintro rfl
    obtain ⟨-, j, upper, lower, -, -, -, -, hlower, -⟩ := h.blank _ hlast
    simp at hlower
  have hn := h.newline last (by simp)
  obtain ⟨front, c, rfl⟩ : ∃ front c, last = front ++ [c] :=
    ⟨_, _, (List.dropLast_append_getLast hlastne).symm⟩
  refine ⟨ofLines init ++ front, c, by simp, ?_⟩
  rintro rfl
  simp at hn

variable (layout)

/-- A token is on a line. -/
theorem tokenLines_ne_nil {ts : List Token} (hne : ts ≠ []) : layout.tokenLines ts ≠ [] := by
  intro h
  have hrows := layout.lies_piecesLines 0 false none (pieces ts)
  rw [← tokenLines, h, List.forall₂_nil_left_iff] at hrows
  cases hp : pieces ts with
  | nil => exact hne (by rw [← flatMap_all_pieces ts, hp, List.flatMap_nil])
  | cons p ps =>
    rw [hp, piecesRows, List.append_eq_nil_iff, List.append_eq_nil_iff] at hrows
    exact layout.pieceRows_ne_nil _ p hrows.1.2

/-- The tokens of a layout do not go on over the ends of lines if no comment of the text does. -/
theorem endLine_of_mem_format {text : List Char} {ts us : List Token}
    (hb : ∀ t ∈ ts, ∀ c, t.lexeme = .blockComment c → '\n' ∉ c.toList)
    (hu : tokenize text = .ok us) (hl : us.map (·.lexeme) = layout.lexemes ts) :
    ∀ t ∈ us, t.endLine = t.position.line := by
  intro t ht
  refine (spells_of_tokenizeFrom hu).endLine_eq t ht ?_
  refine newline_notMem_spelling (spelled_of_tokenizeFrom hu t ht) fun comment hc => ?_
  have hmem : t.lexeme ∈ layout.lexemesAt 0 ts := by
    rw [lexemesAt, ← lexemes, ← hl]
    exact List.mem_map_of_mem ht
  rw [layout.mem_lexemesAt_iff (by simp [hc])] at hmem
  obtain ⟨t', ht', he⟩ := List.mem_map.1 hmem
  exact hb t' ht' comment (he.trans hc)

/-- A text that is read, with no block comment over several lines, is laid out by the rules: as
nothing if it has no tokens, and else in tidy lines and with one line end at its end. -/
theorem tidy_format {text : List Char} {d : Document} {ts : List Token}
    (hp : Script.parse text = .ok d) (ht : tokenize text = .ok ts)
    (hb : ∀ t ∈ ts, ∀ c, t.lexeme = .blockComment c → '\n' ∉ c.toList) :
    (ts = [] → layout.format text = []) ∧
      (ts ≠ [] → ∃ lines us front c, layout.format text = ofLines lines ∧
        tokenize (layout.format text) = .ok us ∧ layout.Tidy lines us ∧
        layout.format text = front ++ [c, '\n'] ∧ c ≠ '\n') := by
  obtain ⟨_, ht', hs⟩ := Script.parse_eq_ok_iff.1 hp
  cases ht.symm.trans ht'
  refine ⟨?_, fun hne => ?_⟩
  · rintro rfl
    rw [layout.format_of_tokenize ht]
    simp [tokenLines, pieces, piecesLines]
  obtain ⟨us, m, hu, hstacked⟩ := layout.exists_stacked_format ht
  have hl : us.map (·.lexeme) = layout.lexemes ts :=
    hstacked.lexemes_eq.trans (layout.flatten_piecesRows 0 false none (pieces ts))
  have hsharp : ∀ t ∈ (pieces ts).flatMap Piece.all, Sharp t.lexeme.spelling := by
    rw [flatMap_all_pieces]
    intro t hmem
    have hspelled := spelled_of_tokenizeFrom ht t hmem
    exact sharp_spelling hspelled (newline_notMem_spelling hspelled (hb t hmem))
  have hlaid : layout.Laid [] none (layout.tokenLines ts)
      (layout.piecesRows 0 false none (pieces ts)) :=
    layout.laid_piecesLines (nested_pieces hs 0) hsharp ⟨rfl, rfl⟩ fun h => absurd rfl h
  have htidy := hlaid.tidy hstacked (layout.endLine_of_mem_format hb hu hl)
  obtain ⟨front, c, hf, hc⟩ := htidy.exists_ofLines_eq (layout.tokenLines_ne_nil hne)
  have hformat := layout.format_of_tokenize ht
  exact ⟨_, us, front, c, hformat, hu, htidy, hformat.trans hf, hc⟩

/-- A list on lines of its own inside a block, with a comment moved out of it and an empty line
behind; the empty lines at the ends of the block go. -/
theorem tidy_format_list :
    ∃ formatted lines us front c,
      format { indentWidth := 2, maxLineLength := 8 }
        "layer(\"a\") \x7b\n\nmacro(\"B\", // c\n[\"D\",]);\n\n\nmap(\"E\",\"F\");\n\n\x7d".toList =
        formatted ∧
      formatted = ofLines (["layer(\"a\") \x7b", "  macro(\"B\", [", "    \"D\",", "  ]);",
        "  // c", "", "  map(\"E\", \"F\");", "\x7d"].map String.toList) ∧
      formatted = ofLines lines ∧ tokenize formatted = .ok us ∧
      Tidy { indentWidth := 2, maxLineLength := 8 } lines us ∧
      formatted = front ++ [c, '\n'] ∧ c ≠ '\n' := by
  have hp : Script.parse
      "layer(\"a\") \x7b\n\nmacro(\"B\", // c\n[\"D\",]);\n\n\nmap(\"E\",\"F\");\n\n\x7d".toList =
      .ok {
        layers := [{
          name := "a"
          entries := [⟨.sequence "B" ["D"], [], ⟨3, 1⟩⟩, ⟨.simple "E" "F", ["// c"], ⟨7, 1⟩⟩]
          position := ⟨1, 1⟩ }] } := by decide +kernel
  have ht : tokenize
      "layer(\"a\") \x7b\n\nmacro(\"B\", // c\n[\"D\",]);\n\n\nmap(\"E\",\"F\");\n\n\x7d".toList =
      .ok [⟨.name "layer", ⟨1, 1⟩, 1⟩, ⟨.mark .openParen, ⟨1, 6⟩, 1⟩,
        ⟨.quoted "a" "\"a\"", ⟨1, 7⟩, 1⟩, ⟨.mark .closeParen, ⟨1, 10⟩, 1⟩,
        ⟨.mark .openBrace, ⟨1, 12⟩, 1⟩, ⟨.name "macro", ⟨3, 1⟩, 3⟩,
        ⟨.mark .openParen, ⟨3, 6⟩, 3⟩, ⟨.quoted "B" "\"B\"", ⟨3, 7⟩, 3⟩,
        ⟨.mark .comma, ⟨3, 10⟩, 3⟩, ⟨.lineComment "// c", ⟨3, 12⟩, 3⟩,
        ⟨.mark .openBracket, ⟨4, 1⟩, 4⟩, ⟨.quoted "D" "\"D\"", ⟨4, 2⟩, 4⟩,
        ⟨.mark .comma, ⟨4, 5⟩, 4⟩, ⟨.mark .closeBracket, ⟨4, 6⟩, 4⟩,
        ⟨.mark .closeParen, ⟨4, 7⟩, 4⟩, ⟨.mark .semicolon, ⟨4, 8⟩, 4⟩,
        ⟨.name "map", ⟨7, 1⟩, 7⟩, ⟨.mark .openParen, ⟨7, 4⟩, 7⟩,
        ⟨.quoted "E" "\"E\"", ⟨7, 5⟩, 7⟩, ⟨.mark .comma, ⟨7, 8⟩, 7⟩,
        ⟨.quoted "F" "\"F\"", ⟨7, 9⟩, 7⟩, ⟨.mark .closeParen, ⟨7, 12⟩, 7⟩,
        ⟨.mark .semicolon, ⟨7, 13⟩, 7⟩, ⟨.mark .closeBrace, ⟨9, 1⟩, 9⟩] := by decide +kernel
  obtain ⟨lines, us, front, c, hformat⟩ :=
    (tidy_format { indentWidth := 2, maxLineLength := 8 } hp ht (by simp)).2 (List.cons_ne_nil _ _)
  exact ⟨_, lines, us, front, c, rfl, by decide +kernel, hformat⟩

end KeyRemap.Layout
