import KeyRemap.Proofs.Layout.Groups
import KeyRemap.Proofs.Layout.Rows

/-!
# A layout forgets earlier ones

Laying out a text that is read, and then laying it out again, gives what laying it out once gives
(`format_format`): widths may differ from one time to the next. Each piece of the text comes back
as a piece, with the comments that were moved below it on lines of their own
(`exists_piece_again`). Empty lines are counted from the lines on which the first layout has put the
pieces (`blankAbove_again`).
-/
namespace KeyRemap.Layout

open Text

/-- Comments that begin where the one before ends, above everything else, are those beside. -/
theorem splitBeside_abreast {n m : Nat} {cs rest : List Token} (h : Abreast n cs m)
    (hc : ∀ c ∈ cs, c.isComment = true) (hr : ∀ t ∈ rest, m < t.position.line) :
    splitBeside n (cs ++ rest) = (cs, rest) := by
  induction h with
  | nil n =>
    cases rest with
    | nil => rfl
    | cons t ts => simp [splitBeside, (hr t List.mem_cons_self).ne']
  | cons ht _ _ ih =>
    obtain ⟨hc, hcs⟩ := List.forall_mem_cons.1 hc
    simp [splitBeside, hc, ht, ih hcs hr]

theorem lastTokenLine_append {ts us : List Token} (hw : ∀ t ∈ us, t.isComment = false) {n m : Nat}
    (h : Abreast n us m) (hne : us ≠ []) : lastTokenLine (ts ++ us) = m := by
  obtain ⟨t, ht, rfl⟩ := h.exists_getLast? hne
  have hus : us.filter (!·.isComment) = us := List.filter_eq_self.2 (by simpa using hw)
  simp [lastTokenLine, hus, List.getLast?_append, ht]

variable (layout : Layout)

theorem nil_notMem_groupRows {ls : List Lexeme} (h : ls ≠ []) (level : Nat) :
    [] ∉ layout.groupRows level ls := by
  have hsingle : [] ∉ [trimCommas ls] := by simpa using (trimCommas_ne_nil h).symm
  unfold groupRows
  cases hs : splitList? ls with
  | none => exact hsingle
  | some parts =>
    obtain ⟨front, members, back⟩ := parts
    obtain ⟨head, tail, rfl, rfl, -⟩ := splitList?_eq_some hs
    simp only
    split
    · exact hsingle
    · have hfront : trimCommas (head ++ [.mark .openBracket]) ≠ [] := trimCommas_ne_nil (by simp)
      have hback : trimCommas (.mark .closeBracket :: tail) ≠ [] :=
        trimCommas_ne_nil (List.cons_ne_nil _ _)
      simp only [List.mem_append, List.mem_singleton, List.mem_map, not_or]
      refine ⟨⟨hfront.symm, ?_⟩, hback.symm⟩
      rintro ⟨m, -, hm⟩
      simp at hm

/-- Where the tokens of a whole group stand that was laid out: those of its lexemes, then the
comments beside the last of them, and below them a line for each comment that was moved. -/
theorem exists_group_of_stacked {g : Group} (hg : Complete (g.tokens.map (·.lexeme)) g.ending)
    {n m level : Nat} {us : List Token}
    (h : Stacked n (layout.pieceRows level (.group g)) us m) :
    ∃ gs cs bs k, us = gs ++ cs ++ bs ∧
      gs.map (·.lexeme) = layout.groupLexemes level (g.tokens.map (·.lexeme)) ∧
      cs.map (·.lexeme) = (layout.kept g).map (·.lexeme) ∧
      (∀ t ∈ gs.head?, t.position.line = n) ∧ Abreast (lastTokenLine gs) cs k ∧
      Stacked (k + 1) ((layout.moved g).map fun t => [t.lexeme]) bs m := by
  obtain ⟨-, -, rows, row, -, hrows, -, -⟩ :=
    layout.exists_last_lies_groupLines level (g.tokens.map (·.lexeme))
  have hnil := layout.nil_notMem_groupRows hg.ne_nil level
  have hflat := layout.flatten_groupRows level (g.tokens.map (·.lexeme))
  rw [hrows] at hnil hflat
  rw [pieceRows, hrows, List.modifyLast_concat] at h
  obtain ⟨xs, bs, k, rfl, hx, hb⟩ := h.split
  obtain ⟨ts, ys, j, rfl, ht, hy⟩ := hx.split
  obtain ⟨vs, _, i, rfl, hv, ha, hend⟩ := hy.uncons
  cases hend
  obtain ⟨us, cs, rfl, hus, hcs⟩ := List.map_eq_append_iff.1 hv
  obtain ⟨l, hal, hac⟩ := ha.split
  have hgs : (ts ++ us).map (·.lexeme) = (rows ++ [row]).flatten := by
    rw [List.map_append, ht.lexemes_eq, hus]
    simp
  have hwords : ∀ t ∈ us, t.isComment = false := fun t htu => by
    have := (hg.groupLexemes layout level).allWords
    rw [← hflat, ← hgs] at this
    exact this t.lexeme (List.mem_map_of_mem (List.mem_append_right ts htu))
  have hne : us ≠ [] := by
    rintro rfl
    exact hnil (by simp [← hus])
  refine ⟨ts ++ us, cs, bs, i, by simp, by rw [hgs, hflat], hcs, ?_, ?_, hb⟩
  · have hrow : Stacked j [row] us (l + 1) := by
      have := Stacked.cons hus hal (.nil _)
      rwa [List.append_nil] at this
    exact (ht.append hrow).line_eq_of_mem_head? hnil
  · rwa [lastTokenLine_append hwords hal hne]

/-- These tokens are taken as the group again, and then as the comments below it. -/
theorem pieces_of_stacked {gs cs bs rest : List Token} {rows : List (List Lexeme)} {e : Ending}
    {k m : Nat} (hg : Complete (gs.map (·.lexeme)) e) (hc : ∀ c ∈ cs, c.isComment = true)
    (ha : Abreast (lastTokenLine gs) cs k) (hb : ∀ b ∈ bs, b.isComment = true)
    (hs : Stacked (k + 1) rows bs m) (hr : ∀ t ∈ rest, m ≤ t.position.line) :
    pieces (gs ++ cs ++ bs ++ rest) =
      .group ⟨gs, e, cs⟩ :: (bs.map .comment ++ pieces rest) := by
  have hwords : ∀ t ∈ gs, t.isComment = false := fun t ht =>
    hg.allWords t.lexeme (List.mem_map_of_mem ht)
  have hgs : Complete (wordsOf gs) e := by
    rwa [wordsOf_eq_filter, List.filter_eq_self.2 (by simpa [Token.isComment] using hwords)]
  have hbelow : ∀ t ∈ bs ++ rest, k < t.position.line := by
    rw [List.forall_mem_append]
    refine ⟨hs.line_le, fun t ht => ?_⟩
    have := hs.le
    have := hr t ht
    omega
  rw [List.append_assoc, List.append_assoc,
    hgs.pieces_eq (fun t ht => hwords t (List.mem_of_mem_head? ht))
      (fun t ht => hwords t (List.mem_of_getLast? ht)),
    splitBeside_abreast ha hc hbelow, pieces_comments hb]

theorem inner_words {gs : List Token} {e : Ending} (h : Complete (gs.map (·.lexeme)) e)
    (cs : List Token) : (Group.mk gs e cs).inner = [] ∧ (Group.mk gs e cs).tokens = gs := by
  have hwords : ∀ t ∈ gs, t.isComment = false := fun t ht =>
    h.allWords t.lexeme (List.mem_map_of_mem ht)
  exact ⟨by simpa [Group.inner] using hwords, by simpa [Group.tokens] using hwords⟩

/-- A group without comments inside ends with the last comment beside it. -/
theorem lastLine_group {gs cs : List Token} {e : Ending} (h : Complete (gs.map (·.lexeme)) e)
    {k : Nat} (ha : Abreast (lastTokenLine gs) cs k) :
    (Piece.group ⟨gs, e, cs⟩).lastLine = k := by
  simp only [Piece.lastLine, (inner_words h cs).1]
  cases cs with
  | nil =>
    cases ha
    rfl
  | cons c cs =>
    obtain ⟨t, ht, rfl⟩ := ha.exists_getLast? (List.cons_ne_nil c cs)
    simp [ht]

/-- Comments on lines of their own, one below the other, stay so. -/
theorem piecesLines_comments {cs bs : List Token} {k m : Nat}
    (h : Stacked (k + 1) (cs.map fun c => [c.lexeme]) bs m) (level : Nat) (afterOpening : Bool)
    (ps : List Piece) :
    ∃ afterOpening' j, m = j + 1 ∧ (afterOpening' = true → afterOpening = true) ∧
      layout.piecesLines level afterOpening (some k) (bs.map .comment ++ ps) =
        cs.map (fun c => layout.indent level ++ c.lexeme.spelling) ++
          layout.piecesLines level afterOpening' (some j) ps := by
  induction cs generalizing k bs afterOpening with
  | nil =>
    cases h
    exact ⟨afterOpening, k, rfl, id, rfl⟩
  | cons c cs ih =>
    obtain ⟨ts, vs, j, rfl, hts, ha, hbelow⟩ := h.uncons
    obtain ⟨t, rfl, ht⟩ := List.map_eq_singleton_iff.1 hts
    obtain ⟨afterOpening', i, rfl, ho, he⟩ := ih hbelow false
    cases ha with
    | cons hline hle ha =>
      cases ha
      refine ⟨afterOpening', i, rfl, fun hc => by simpa using ho hc, ?_⟩
      have hblank : layout.blankAbove afterOpening (some k) (.comment t) = false := by
        simp [blankAbove, Piece.firstLine, hline]
      simp only [List.map_cons, List.cons_append, List.nil_append, piecesLines, hblank,
        Bool.false_eq_true, if_false, Piece.closes, Piece.opens, Piece.lastLine, pieceLines, he, ht]

theorem withComments_congr {cs ds : List Token} (h : cs.map (·.lexeme) = ds.map (·.lexeme))
    (lines : List (List Char)) : withComments cs lines = withComments ds lines := by
  have hflat (ts : List Token) : ts.flatMap (fun t => ' ' :: t.lexeme.spelling) =
      (ts.map (·.lexeme)).flatMap fun l => ' ' :: l.spelling := by
    rw [List.flatMap_map]
  rw [withComments, withComments, hflat, hflat, h]

theorem isComment_of_map_eq {cs ds : List Token} (h : cs.map (·.lexeme) = ds.map (·.lexeme))
    (hd : ∀ d ∈ ds, d.isComment = true) : ∀ c ∈ cs, c.isComment = true := by
  intro c hc
  obtain ⟨d, hmem, he⟩ := List.mem_map.1 (h ▸ List.mem_map_of_mem hc)
  exact (congrArg Lexeme.isComment he).symm.trans (hd d hmem)

variable {layout} {other : Layout}

/-- The comments that one layout has left beside a group are left there again, and no others are
below it. -/
theorem kept_again (hkeep : layout.keepCommentsInPlace = other.keepCommentsInPlace) {g : Group}
    {gs cs : List Token} {e : Ending} (hinner : (Group.mk gs e cs).inner = [])
    (hcs : cs.map (·.lexeme) = (other.kept g).map (·.lexeme)) :
    layout.kept ⟨gs, e, cs⟩ = cs ∧ layout.moved ⟨gs, e, cs⟩ = [] := by
  cases hk : other.keepCommentsInPlace with
  | true => simp [kept, moved, hkeep, hk, hinner]
  | false =>
    obtain rfl : cs = [] := by simpa [kept, hk] using hcs
    simp [kept, moved, hkeep, hk, hinner]

/-- A piece that one layout has put on lines is taken as a piece again, with the comments that were
moved below it. Another layout gives these the lines that it gives the piece. -/
theorem exists_piece_again (hkeep : layout.keepCommentsInPlace = other.keepCommentsInPlace)
    {p : Piece} (hp : p.Regular) {level n m : Nat} {us rest : List Token}
    (h : Stacked n (other.pieceRows level p) us m) (hr : ∀ t ∈ rest, m ≤ t.position.line) :
    ∃ (q : Piece) (below bs : List Token),
      pieces (us ++ rest) = q :: (bs.map .comment ++ pieces rest) ∧
      q.firstLine = n ∧ q.closes = p.closes ∧ q.opens = p.opens ∧
      Stacked (q.lastLine + 1) (below.map fun c => [c.lexeme]) bs m ∧
      layout.pieceLines level q ++ below.map (fun c =>
          layout.indent (if p.opens then level + 1 else level) ++ c.lexeme.spelling) =
        layout.pieceLines level p := by
  cases p with
  | comment t =>
    obtain ⟨ts, _, k, rfl, hts, ha, hend⟩ := h.uncons
    cases hend
    obtain ⟨c, rfl, hc⟩ := List.map_eq_singleton_iff.1 hts
    cases ha with
    | cons hline _ ha =>
      cases ha
      have hcomment : c.isComment = true := (congrArg Lexeme.isComment hc).trans hp
      refine ⟨.comment c, [], [], ?_, hline, rfl, rfl, .nil _, ?_⟩
      · simp [pieces, hcomment]
      · simp [pieceLines, hc]
  | group g =>
    obtain ⟨hg, hbeside⟩ := hp
    obtain ⟨gs, cs, bs, k, rfl, hgs, hcs, hline, ha, hb⟩ := other.exists_group_of_stacked hg h
    have hcomplete : Complete (gs.map (·.lexeme)) g.ending := by
      rw [hgs]
      exact hg.groupLexemes other level
    have hbs : bs.map (·.lexeme) = (other.moved g).map (·.lexeme) := by
      rw [hb.lexemes_eq, ← List.flatMap_def, ← List.map_eq_flatMap]
    have hcomments := isComment_of_map_eq hcs fun t ht => hbeside t (other.kept_subset g ht)
    have hbelow := isComment_of_map_eq hbs fun t ht =>
      isComment_of_mem_inner_append hbeside t (other.moved_subset g ht)
    obtain ⟨hinner, htokens⟩ := inner_words hcomplete cs
    refine ⟨.group ⟨gs, g.ending, cs⟩, other.moved g, bs,
      pieces_of_stacked hcomplete hcomments ha hbelow hb hr, ?_, rfl, rfl, ?_, ?_⟩
    · obtain ⟨first, ts, rfl⟩ := List.exists_cons_of_ne_nil (l := gs) fun hn =>
        hcomplete.ne_nil (by rw [hn, List.map_nil])
      simpa [Piece.firstLine] using hline
    · rwa [lastLine_group hcomplete ha]
    · obtain ⟨hkept, hmoved⟩ := kept_again hkeep hinner hcs
      have hg' : layout.kept g = other.kept g ∧ layout.moved g = other.moved g := by
        simp only [kept, moved, hkeep, and_self]
      rw [pieceLines_group, pieceLines_group, hkept, hmoved, htokens, hgs,
        hg.groupLines_groupLexemes layout other, withComments_congr hcs, hg'.1, hg'.2]
      simp [levelBehind, Piece.opens]

/-- A piece on the first line, or with an empty line above it, has an empty line above it again. -/
theorem blankAbove_again (hcollapse : layout.collapseBlankLines = other.collapseBlankLines)
    {p q : Piece} (hc : q.closes = p.closes) {ao ao' : Bool} (ho : ao' = true → ao = true)
    {last last' : Option Nat} {n : Nat}
    (hl : (last = none ∧ last' = none) ∨ ∃ k j, last = some k ∧ last' = some j ∧ n = j + 1)
    (hq : q.firstLine = if other.blankAbove ao last p then n + 1 else n) :
    layout.blankAbove ao' last' q = layout.blankAbove ao last p := by
  rcases hl with ⟨rfl, rfl⟩ | ⟨k, j, rfl, rfl, rfl⟩
  · rfl
  have hsame : layout.blankAbove ao (some k) p = other.blankAbove ao (some k) p := by
    simp only [blankAbove, hcollapse]
  rw [hsame]
  cases hb : other.blankAbove ao (some k) p with
  | false =>
    rw [hb, if_neg (by simp)] at hq
    simp [blankAbove, hq]
  | true =>
    rw [hb, if_pos rfl] at hq
    obtain ⟨hcol, -, hao, hcloses⟩ := other.blankAbove_eq_true hb
    have hao' : ao' = false := by
      cases ao' with
      | false => rfl
      | true => simp [ho rfl] at hao
    simp [blankAbove, hq, hc, hcloses, hao', hcollapse, hcol]

/-- An empty line holds no token. -/
theorem nil_of_stacked_gap {b : Bool} {n m : Nat} {us : List Token}
    (h : Stacked n (if b then [[]] else []) us m) :
    us = [] ∧ m = if b then n + 1 else n := by
  cases b with
  | false =>
    cases h
    exact ⟨rfl, rfl⟩
  | true =>
    obtain ⟨ts, _, k, rfl, hts, ha, hend⟩ := h.uncons
    obtain rfl := List.map_eq_nil_iff.1 hts
    cases hend
    cases ha
    exact ⟨rfl, rfl⟩

/-- The pieces of a text that was laid out have the lines of the pieces it was laid out from. The
induction is on the latter. It needs to know of the piece before only that no empty line was put
behind an opening, and that the lines of the text go on where that piece ended. -/
theorem piecesLines_again (hcollapse : layout.collapseBlankLines = other.collapseBlankLines)
    (hkeep : layout.keepCommentsInPlace = other.keepCommentsInPlace) {ps : List Piece}
    (hp : ∀ p ∈ ps, p.Regular) {level n m : Nat} {ao ao' : Bool} {last last' : Option Nat}
    {us : List Token} (h : Stacked n (other.piecesRows level ao last ps) us m)
    (ho : ao' = true → ao = true)
    (hl : (last = none ∧ last' = none) ∨ ∃ k j, last = some k ∧ last' = some j ∧ n = j + 1) :
    layout.piecesLines level ao' last' (pieces us) = layout.piecesLines level ao last ps := by
  induction ps generalizing level n ao ao' last last' us with
  | nil =>
    cases h
    simp [pieces, piecesLines]
  | cons p ps ih =>
    obtain ⟨hp, hps⟩ := List.forall_mem_cons.1 hp
    obtain ⟨_, rest, i, rfl, hfront, hrest⟩ := h.split
    obtain ⟨gap, us, n', rfl, hgap, hus⟩ := hfront.split
    obtain ⟨rfl, hn⟩ := nil_of_stacked_gap hgap
    obtain ⟨q, below, bs, hpieces, hfirst, hcloses, hopens, hbelow, hlines⟩ :=
      exists_piece_again hkeep hp hus hrest.line_le
    have hblank := blankAbove_again hcollapse hcloses ho hl (hfirst.trans hn)
    obtain ⟨ao₃, j, rfl, hao, hcomments⟩ := layout.piecesLines_comments hbelow
      (if q.opens then (if p.closes then level - 1 else level) + 1
        else if p.closes then level - 1 else level) q.opens (pieces rest)
    have ihrest := ih hps hrest (fun h => hopens ▸ hao h) (.inr ⟨_, j, rfl, rfl, rfl⟩)
    rw [List.nil_append, hpieces]
    simp only [piecesLines, hblank, hcloses, hopens] at hcomments ⊢
    rw [hcomments, ihrest, ← hlines]
    simp

/-- A text that is read is laid out in the same way whether it was laid out before or not, in any
layout that agrees on empty lines and on comments at the ends of lines. -/
theorem format_format {layout other : Layout}
    (hcollapse : layout.collapseBlankLines = other.collapseBlankLines)
    (hkeep : layout.keepCommentsInPlace = other.keepCommentsInPlace) {text : List Char}
    {d : Document} (h : Script.parse text = .ok d) :
    layout.format (other.format text) = layout.format text := by
  obtain ⟨ts, ht, hs⟩ := Script.parse_eq_ok_iff.1 h
  obtain ⟨us, m, hu, hstacked⟩ := other.exists_stacked_format ht
  have hregular := (nested_pieces hs 0).regular
  have hlines : layout.tokenLines us = layout.tokenLines ts :=
    piecesLines_again hcollapse hkeep hregular hstacked id (.inl ⟨rfl, rfl⟩)
  rw [layout.format_of_tokenize hu, layout.format_of_tokenize ht, hlines]

/-- A list with a comment in it, comments beside the brace that closes a block, and empty lines. -/
theorem format_format_commented :
    format {} (format { indentWidth := 2, maxLineLength := 8 }
        "layer(\"a\") \x7b\n\n\nmacro(\"B\", // c\n[\"D\",]);\n\n\n\x7d /* e */ // f\n".toList) =
      format {}
        "layer(\"a\") \x7b\n\n\nmacro(\"B\", // c\n[\"D\",]);\n\n\n\x7d /* e */ // f\n".toList := by
  have hp : Script.parse
      "layer(\"a\") \x7b\n\n\nmacro(\"B\", // c\n[\"D\",]);\n\n\n\x7d /* e */ // f\n".toList =
      .ok {
        layers := [{
          name := "a"
          entries := [⟨.sequence "B" ["D"], [], ⟨4, 1⟩⟩]
          trailing := ["// c"]
          position := ⟨1, 1⟩ }]
        trailing := ["/* e */", "// f"] } := by decide +kernel
  have hcollapse : ({} : Layout).collapseBlankLines =
      Layout.collapseBlankLines { indentWidth := 2, maxLineLength := 8 } := rfl
  exact format_format hcollapse rfl hp

end KeyRemap.Layout
