import KeyRemap.Proofs.Layout.Groups
import KeyRemap.Proofs.Layout.Rows
import KeyRemap.Proofs.Token.Lossless

/-!
# How lines are indented

A line that was laid out begins with the spaces of the blocks and lists around it, and these can be
counted in the lexemes above it (`Aligned`). A text that is read is laid out in such lines, with
empty lines between them only where the rules allow one (`laid_piecesLines`): each piece leaves as
many blocks open as its brace says (`inside_pieceRows`), which carries the induction.
-/
namespace KeyRemap.Layout

open Text

/-- A text on one line that neither begins nor ends with a blank. -/
structure Sharp (cs : List Char) : Prop where
  first : ∃ c ∈ cs.head?, isBlank c = false
  last : ∃ c ∈ cs.getLast?, isBlank c = false
  newline : '\n' ∉ cs

theorem sharp_spelling {l : Lexeme} (hl : l.Spelled) (hn : '\n' ∉ l.spelling) :
    Sharp l.spelling := by
  obtain ⟨c, s, hs, h⟩ := hl
  obtain ⟨d, hd⟩ := Option.ne_none_iff_exists'.1
    (List.getLast?_eq_none_iff.not.2 (hs ▸ List.cons_ne_nil c s : l.spelling ≠ []))
  exact ⟨⟨c, by rw [hs]; rfl, isBlank_eq_false_of_scan h⟩,
    ⟨d, hd, getLast?_spelling_of_scan h d hd⟩, hn⟩

namespace Sharp

variable {cs : List Char}

theorem ne_nil (h : Sharp cs) : cs ≠ [] := by
  rintro rfl
  obtain ⟨c, hc, -⟩ := h.first
  cases hc

theorem append {gap ds : List Char} (hc : Sharp cs) (hg : '\n' ∉ gap) (hd : Sharp ds) :
    Sharp (cs ++ gap ++ ds) := by
  obtain ⟨c, hfirst, hcb⟩ := hc.first
  obtain ⟨d, hlast, hdb⟩ := hd.last
  refine ⟨⟨c, ?_, hcb⟩, ⟨d, ?_, hdb⟩, ?_⟩
  · simp_all [List.head?_append]
  · simp_all [List.getLast?_append]
  · simp [hc.newline, hg, hd.newline]

theorem append_joinedAfter (hc : Sharp cs) {ls : List Lexeme} (hs : ∀ l ∈ ls, Sharp l.spelling)
    (left : Option Lexeme) : Sharp (cs ++ joinedAfter left ls) := by
  induction ls generalizing cs left with
  | nil => simpa [joinedAfter] using hc
  | cons l ls ih =>
    obtain ⟨hl, hls⟩ := List.forall_mem_cons.1 hs
    rw [joinedAfter_cons]
    split
    · exact ih hc hls left
    · have hgap : '\n' ∉ gap left l := by
        unfold gap
        split
        · split <;> simp
        · simp
      have := ih (hc.append hgap hl) hls (some l)
      simpa only [List.append_assoc] using this

/-- Comments at the end of a line. -/
theorem append_beside (hc : Sharp cs) {ts : List Token}
    (hs : ∀ t ∈ ts, Sharp t.lexeme.spelling) :
    Sharp (cs ++ ts.flatMap fun t => ' ' :: t.lexeme.spelling) := by
  induction ts generalizing cs with
  | nil => simpa using hc
  | cons t ts ih =>
    obtain ⟨ht, hts⟩ := List.forall_mem_cons.1 hs
    have := ih (hc.append (by simp : '\n' ∉ [' ']) ht) hts
    simpa using this

end Sharp

theorem sharp_joined {ls : List Lexeme} (hne : ls ≠ []) (hs : ∀ l ∈ ls, Sharp l.spelling) :
    Sharp (joined ls) := by
  unfold joined
  induction ls with
  | nil => exact absurd rfl hne
  | cons l ls ih =>
    obtain ⟨hl, hls⟩ := List.forall_mem_cons.1 hs
    rw [joinedAfter_cons]
    split
    · rename_i h
      have hnext : ls ≠ [] := by
        rintro rfl
        simp at h
      exact ih hnext hls
    · exact hl.append_joinedAfter hls (some l)

/-- Behind the lexemes, so many blocks and lists are open. -/
structure Inside (ls : List Lexeme) (blocks lists : Nat) : Prop where
  braces : ls.count (.mark .openBrace) = ls.count (.mark .closeBrace) + blocks
  brackets : ls.count (.mark .openBracket) = ls.count (.mark .closeBracket) + lists

/-- Lexemes without braces and brackets. -/
def Flat (ls : List Lexeme) : Prop :=
  ∀ m ∈ [Mark.openBrace, .closeBrace, .openBracket, .closeBracket], .mark m ∉ ls

theorem flat_comments {ls : List Lexeme} (h : ∀ l ∈ ls, l.isComment = true) : Flat ls :=
  fun _ _ hl => by cases h _ hl

theorem Flat.count_eq_zero {ls : List Lexeme} (h : Flat ls) :
    ls.count (.mark .openBrace) = 0 ∧ ls.count (.mark .closeBrace) = 0 ∧
      ls.count (.mark .openBracket) = 0 ∧ ls.count (.mark .closeBracket) = 0 := by
  simp only [List.count_eq_zero]
  exact ⟨h _ (by simp), h _ (by simp), h _ (by simp), h _ (by simp)⟩

theorem Flat.flatten {rows : List (List Lexeme)} (h : ∀ row ∈ rows, Flat row) :
    Flat rows.flatten := by
  intro m hm hl
  obtain ⟨row, hrow, hl⟩ := List.mem_flatten.1 hl
  exact h row hrow m hm hl

theorem Flat.inside_append_iff {ls ms : List Lexeme} (hm : Flat ms) {blocks lists : Nat} :
    Inside (ls ++ ms) blocks lists ↔ Inside ls blocks lists := by
  obtain ⟨hob, hcb, hol, hcl⟩ := hm.count_eq_zero
  constructor <;> rintro ⟨hb, hl⟩
  · constructor <;> simp only [List.count_append] at hb hl <;> omega
  · constructor <;> simp only [List.count_append] <;> omega

variable (layout : Layout)

/-- A line, with its lexemes and those above it, begins with the spaces of the blocks and lists that
it stands in: those open above it, but for the one that it closes first. -/
def Aligned (before row : List Lexeme) (line : List Char) : Prop :=
  ∃ blocks lists body,
    Inside before (blocks + if row.head? = some (.mark .closeBrace) then 1 else 0)
      (lists + if row.head? = some (.mark .closeBracket) then 1 else 0) ∧
    lists ≤ 1 ∧ line = spaces ((blocks + lists) * layout.indentWidth) ++ body ∧ Sharp body

namespace Aligned

variable {layout} {before row : List Lexeme} {line : List Char}

theorem ne_nil (h : layout.Aligned before row line) : line ≠ [] := by
  obtain ⟨-, -, body, -, -, rfl, hs⟩ := h
  exact List.append_ne_nil_of_right_ne_nil _ hs.ne_nil

theorem newline_notMem (h : layout.Aligned before row line) : '\n' ∉ line := by
  obtain ⟨-, -, body, -, -, rfl, hs⟩ := h
  simp [spaces, hs.newline]

/-- Comments at the end of the line. -/
theorem append_beside (h : layout.Aligned before row line) (hne : row ≠ []) {ts : List Token}
    (hs : ∀ t ∈ ts, Sharp t.lexeme.spelling) :
    layout.Aligned before (row ++ ts.map (·.lexeme))
      (line ++ ts.flatMap fun t => ' ' :: t.lexeme.spelling) := by
  obtain ⟨blocks, lists, body, hi, hl, rfl, hb⟩ := h
  refine ⟨blocks, lists, _, ?_, hl, List.append_assoc _ _ _, hb.append_beside hs⟩
  rwa [List.head?_append_of_ne_nil _ hne]

theorem of_flat {blocks lists : Nat} (h : Inside before blocks lists) (hl : lists ≤ 1)
    (hr : Flat row) {body : List Char} (hs : Sharp body) :
    layout.Aligned before row (layout.indent (blocks + lists) ++ body) := by
  have hhead {m : Mark} (hm : m ∈ [Mark.openBrace, .closeBrace, .openBracket, .closeBracket]) :
      row.head? ≠ some (.mark m) := fun he => hr m hm (List.mem_of_mem_head? he)
  refine ⟨blocks, lists, body, ?_, hl, rfl, hs⟩
  rwa [if_neg (hhead (by simp)), if_neg (hhead (by simp))]

end Aligned

/-- Lines with their lexemes, below other lexemes and perhaps a line that an empty line may follow.
Empty lines stand between lines that are not, and neither below the opening of a block nor above
the closing of one. -/
inductive Laid : List Lexeme → Option (List Lexeme) → List (List Char) → List (List Lexeme) → Prop
  | nil (before : List Lexeme) (above : Option (List Lexeme)) : Laid before above [] []
  | line {before row : List Lexeme} {above : Option (List Lexeme)} {line : List Char}
    {lines : List (List Char)} {rows : List (List Lexeme)} (h : layout.Aligned before row line)
    (hs : Laid (before ++ row) (some row) lines rows) :
    Laid before above (line :: lines) (row :: rows)
  | blank {before above row : List Lexeme} {lines : List (List Char)} {rows : List (List Lexeme)}
    (hc : layout.collapseBlankLines = true) (ha : .mark .openBrace ∉ above)
    (hr : row.head? ≠ some (.mark .closeBrace)) (hs : Laid before none lines (row :: rows)) :
    Laid before (some above) ([] :: lines) ([] :: row :: rows)

namespace Laid

variable {layout} {before : List Lexeme} {above : Option (List Lexeme)}
variable {lines ms : List (List Char)} {rows ns : List (List Lexeme)}

theorem append (h : layout.Laid before above lines rows)
    (hm : layout.Laid (before ++ rows.flatten) (rows.getLast?.or above) ms ns) :
    layout.Laid before above (lines ++ ms) (rows ++ ns) := by
  induction h with
  | nil => simpa using hm
  | line h _ ih =>
    refine .line h (ih ?_)
    rw [List.flatten_cons, ← List.append_assoc] at hm
    simpa [List.getLast?_cons] using hm
  | blank hc ha hr _ ih =>
    refine .blank hc ha hr (ih ?_)
    simpa [List.getLast?_cons] using hm

/-- Lines without braces and brackets, all at one level. -/
theorem of_flat {α : Type} {body : α → List Char} {row : α → List Lexeme} {xs : List α}
    {blocks lists : Nat} (h : Inside before blocks lists) (hl : lists ≤ 1)
    (hr : ∀ x ∈ xs, Flat (row x)) (hs : ∀ x ∈ xs, Sharp (body x)) :
    layout.Laid before above (xs.map fun x => layout.indent (blocks + lists) ++ body x)
      (xs.map row) := by
  induction xs generalizing before above with
  | nil => exact .nil before above
  | cons x xs ih =>
    obtain ⟨hrx, hr⟩ := List.forall_mem_cons.1 hr
    obtain ⟨hsx, hs⟩ := List.forall_mem_cons.1 hs
    exact .line (.of_flat h hl hrx hsx) (ih (hrx.inside_append_iff.2 h) hr hs)

theorem newline_notMem (h : layout.Laid before above lines rows) :
    ∀ line ∈ lines, '\n' ∉ line := by
  induction h with
  | nil => simp
  | line h _ ih => exact List.forall_mem_cons.2 ⟨h.newline_notMem, ih⟩
  | blank _ _ _ _ ih => exact List.forall_mem_cons.2 ⟨List.not_mem_nil, ih⟩

/-- A line that is not empty is aligned below the lexemes of those above it. -/
theorem aligned (h : layout.Laid before above lines rows) {i : Nat} {line : List Char}
    (hl : lines[i]? = some line) (hne : line ≠ []) :
    ∃ row, rows[i]? = some row ∧
      layout.Aligned (before ++ (rows.take i).flatten) row line := by
  induction h generalizing i with
  | nil => simp at hl
  | @line before row above first lines rows h _ ih =>
    cases i with
    | zero =>
      obtain rfl : first = line := by simpa using hl
      exact ⟨row, rfl, by simpa using h⟩
    | succ i =>
      obtain ⟨r, hr, ha⟩ := ih hl
      exact ⟨r, hr, by simpa using ha⟩
  | blank _ _ _ _ ih =>
    cases i with
    | zero => exact absurd (by simpa using hl) hne.symm
    | succ i =>
      obtain ⟨r, hr, ha⟩ := ih hl
      exact ⟨r, hr, by simpa using ha⟩

/-- An empty line at the top is there for the line above. -/
theorem blank_first (h : layout.Laid before above lines rows) (hl : lines[0]? = some []) :
    layout.collapseBlankLines = true ∧ (∃ row ∈ above, .mark .openBrace ∉ row) ∧
      ∃ below row, lines[1]? = some below ∧ below ≠ [] ∧ rows[1]? = some row ∧
        row.head? ≠ some (.mark .closeBrace) := by
  cases h with
  | nil => simp at hl
  | line h => exact absurd (by simpa using hl) h.ne_nil
  | @blank _ above row _ _ hc ha hr h =>
    cases h with
    | @line _ _ _ line _ _ h => exact ⟨hc, ⟨above, rfl, ha⟩, line, row, rfl, h.ne_nil, rfl, hr⟩

/-- An empty line stands between two that are not, the upper one without an opening brace, the lower
one without a closing brace in front. -/
theorem blank_between (h : layout.Laid before above lines rows) {i : Nat}
    (hl : lines[i + 1]? = some []) :
    layout.collapseBlankLines = true ∧
      (∃ upper row, lines[i]? = some upper ∧ upper ≠ [] ∧ rows[i]? = some row ∧
        .mark .openBrace ∉ row) ∧
      ∃ lower row, lines[i + 2]? = some lower ∧ lower ≠ [] ∧ rows[i + 2]? = some row ∧
        row.head? ≠ some (.mark .closeBrace) := by
  induction h generalizing i with
  | nil => simp at hl
  | @line before row above line lines rows h hs ih =>
    cases i with
    | zero =>
      obtain ⟨hc, ⟨r, hr, ho⟩, hbelow⟩ := hs.blank_first hl
      cases hr
      exact ⟨hc, ⟨line, row, rfl, h.ne_nil, rfl, ho⟩, hbelow⟩
    | succ i => exact ih hl
  | blank _ _ _ hs ih =>
    cases i with
    | zero =>
      obtain ⟨-, ⟨r, hr, -⟩, -⟩ := hs.blank_first hl
      cases hr
    | succ i => exact ih hl

end Laid

theorem flat_keys {ls : List Lexeme} {keys : List String} (h : Grammar.Keys ls keys) : Flat ls := by
  intro m hm hl
  obtain rfl := h.eq_comma_of_mem hl
  simp at hm

/-- The members of a list of keys are single strings. -/
theorem exists_quoted_of_mem_membersAfter {ls : List Lexeme} {keys : List String}
    (h : Grammar.Keys ls keys) {comma : List Lexeme} (hc : comma = [] ∨ comma = [.mark .comma]) :
    ∀ m ∈ membersAfter [] (ls ++ comma),
      ∃ key raw, m = [.quoted key raw] ∧ .quoted key raw ∈ ls ++ comma := by
  induction h with
  | one key raw => rcases hc with rfl | rfl <;> simp [membersAfter]
  | @more key raw ls keys _ ih =>
    have hmembers : membersAfter [] (.quoted key raw :: .mark .comma :: ls ++ comma) =
        [.quoted key raw] :: membersAfter [] (ls ++ comma) := by
      simp [membersAfter]
    rw [hmembers, List.forall_mem_cons]
    refine ⟨⟨key, raw, rfl, List.mem_cons_self⟩, fun m hm => ?_⟩
    obtain ⟨k, r, rfl, hmem⟩ := ih m hm
    exact ⟨k, r, rfl, List.mem_cons_of_mem _ (List.mem_cons_of_mem _ hmem)⟩

namespace Complete

variable {ls : List Lexeme} {e : Ending}

/-- A header opens a block and a brace closes one, and no list is left open. -/
theorem count_marks (h : Complete ls e) :
    ls.count (.mark .openBrace) = (if e = .opens then 1 else 0) ∧
      ls.count (.mark .closeBrace) = (if e = .closes then 1 else 0) ∧
      ls.count (.mark .openBracket) = ls.count (.mark .closeBracket) := by
  cases h with
  | statement h =>
    obtain ⟨h⟩ := h
    cases h with
    | sequence source a hk hc =>
      obtain ⟨hob, hcb, hol, hcl⟩ := (flat_keys hk).count_eq_zero
      rcases hc with rfl | rfl <;> simp [List.count_append, hob, hcb, hol, hcl]
    | _ => simp
  | header h => cases h; simp
  | brace => simp

/-- Only a closing brace begins with a mark. -/
theorem head?_trimCommas (h : Complete ls e) : ∃ l, (trimCommas ls).head? = some l ∧
    l ≠ .mark .closeBracket ∧ (l = .mark .closeBrace ↔ e = .closes) := by
  cases h with
  | statement h =>
    obtain ⟨h⟩ := h
    cases h <;> simp [trimCommas]
  | header h => cases h; simp [trimCommas]
  | brace => simp [trimCommas]

/-- A group with a list has nothing but keys in it, and it opens and closes no block. -/
theorem of_splitList? (h : Complete ls e) {front members back : List Lexeme}
    (hs : splitList? ls = some (front, members, back)) :
    e = .statement ∧
      (∃ source a, front = [.name "macro", .mark .openParen, .quoted source a, .mark .comma,
        .mark .openBracket]) ∧
      (∀ m ∈ membersAfter [] members, ∃ key raw,
        m = [.quoted key raw] ∧ .quoted key raw ∈ members) ∧
      back = [.mark .closeBracket, .mark .closeParen, .mark .semicolon] := by
  cases h with
  | statement h =>
    obtain ⟨h⟩ := h
    cases h with
    | @sequence source a ks keys hk comma hc =>
      rw [splitList?_keys hk comma source a] at hs
      cases hs
      exact ⟨rfl, ⟨source, a, rfl⟩, exists_quoted_of_mem_membersAfter hk hc, rfl⟩
    | _ => simp [splitList?] at hs
  | header h => cases h; simp [splitList?] at hs
  | brace => simp [splitList?] at hs

end Complete

/-- The lines of the members of a list stand in it. -/
theorem laid_members {members : List Lexeme}
    (hm : ∀ m ∈ membersAfter [] members, ∃ key raw,
      m = [.quoted key raw] ∧ .quoted key raw ∈ members)
    (hs : ∀ l ∈ members, Sharp l.spelling) {before : List Lexeme} {level : Nat}
    (hi : Inside before level 1) (above : Option (List Lexeme)) :
    layout.Laid before above
        ((membersAfter [] members).map fun m => layout.indent (level + 1) ++ joined m ++ [','])
        ((membersAfter [] members).map fun m => trimCommas m ++ [.mark .comma]) ∧
      Inside (before ++
        ((membersAfter [] members).map fun m => trimCommas m ++ [.mark .comma]).flatten)
        level 1 := by
  have hcomma : Sharp [','] := sharp_spelling (Lexeme.spelled_mark .comma) (by decide)
  have hsharp : ∀ m ∈ membersAfter [] members, Sharp (joined m ++ [',']) := by
    intro m hmem
    obtain ⟨key, raw, rfl, hkey⟩ := hm m hmem
    have := (hs _ hkey).append List.not_mem_nil hcomma
    simpa [joined, joinedAfter] using this
  have hflat : ∀ m ∈ membersAfter [] members, Flat (trimCommas m ++ [.mark .comma]) := by
    intro m hmem
    obtain ⟨key, raw, rfl, -⟩ := hm m hmem
    simp [Flat, trimCommas]
  simp only [List.append_assoc]
  exact ⟨.of_flat hi (Nat.le_refl 1) hflat hsharp,
    (Flat.flatten (List.forall_mem_map.2 hflat)).inside_append_iff.2 hi⟩

/-- A whole group on one line. -/
theorem Complete.aligned {ls : List Lexeme} {e : Ending} (h : Complete ls e)
    (hs : ∀ l ∈ ls, Sharp l.spelling) {before : List Lexeme} {level : Nat}
    (hi : Inside before (level + if e = .closes then 1 else 0) 0) :
    layout.Aligned before (trimCommas ls) (layout.indent level ++ joined ls) := by
  obtain ⟨l, hl, hbracket, hbrace⟩ := h.head?_trimCommas
  refine ⟨level, 0, joined ls, ?_, Nat.zero_le 1, rfl, sharp_joined h.ne_nil hs⟩
  simpa [hl, hbracket, hbrace] using hi

/-- The lines of a whole group, the last of them apart. -/
theorem exists_laid_groupLines {ls : List Lexeme} {e : Ending} (h : Complete ls e)
    (hs : ∀ l ∈ ls, Sharp l.spelling) {before : List Lexeme} {level : Nat}
    (hi : Inside before (level + if e = .closes then 1 else 0) 0)
    (above : Option (List Lexeme)) :
    ∃ lines line rows row, layout.groupLines level ls = lines ++ [line] ∧
      layout.groupRows level ls = rows ++ [row] ∧ row ≠ [] ∧
      layout.Laid before above lines rows ∧
      layout.Aligned (before ++ rows.flatten) row line := by
  have hne := trimCommas_ne_nil h.ne_nil
  have hsingle : layout.Aligned (before ++ [].flatten) (trimCommas ls)
      (layout.indent level ++ joined ls) := by
    simpa using h.aligned layout hs hi
  unfold groupLines groupRows
  cases hsplit : splitList? ls with
  | none => exact ⟨[], _, [], _, rfl, rfl, hne, .nil before above, hsingle⟩
  | some parts =>
    obtain ⟨front, members, back⟩ := parts
    simp only
    split
    · exact ⟨[], _, [], _, rfl, rfl, hne, .nil before above, hsingle⟩
    · obtain ⟨-, -, -, -, rfl, -, -⟩ := splitList?_eq_some hsplit
      obtain ⟨rfl, ⟨source, a, rfl⟩, hm, rfl⟩ := h.of_splitList? hsplit
      obtain ⟨hsinit, hsback⟩ := List.forall_mem_append.1 hs
      obtain ⟨hsfront, hsmembers⟩ := List.forall_mem_append.1 hsinit
      have houter : Inside before level 0 := hi
      have hopen : Inside (before ++ trimCommas [.name "macro", .mark .openParen,
          .quoted source a, .mark .comma, .mark .openBracket]) level 1 :=
        ⟨by simp [trimCommas, houter.braces], by simp [trimCommas, houter.brackets]⟩
      obtain ⟨hlines, hclose⟩ := layout.laid_members hm hsmembers hopen (some _)
      refine ⟨_, _, _, _, rfl, rfl, trimCommas_ne_nil (List.cons_ne_nil _ _), .line ?_ hlines, ?_⟩
      · exact ⟨level, 0, _, by simpa [trimCommas] using houter, Nat.zero_le 1, rfl,
          sharp_joined (List.cons_ne_nil _ _) hsfront⟩
      · -- the bracket in front is that of the list, so the line stands outside
        exact ⟨level, 0, _, by simpa [trimCommas] using hclose, Nat.zero_le 1, rfl,
          sharp_joined (List.cons_ne_nil _ _) hsback⟩

/-- The tokens of a piece. -/
def Piece.all : Piece → List Token
  | .comment t => [t]
  | .group g => g.taken ++ g.beside

theorem flatMap_all_pieces (ts : List Token) : (pieces ts).flatMap Piece.all = ts := by
  fun_induction pieces ts with
  | case1 => rfl
  | case2 t ts ht ih => simp [Piece.all, ih]
  | case3 t ts ht ih => simpa [Piece.all, ih] using takeGroup_append t ts

theorem pieceRows_ne_nil (level : Nat) (p : Piece) : layout.pieceRows level p ≠ [] := by
  cases p with
  | comment t => exact List.cons_ne_nil _ _
  | group g =>
    obtain ⟨-, -, rows, row, -, hrows, -, -⟩ :=
      layout.exists_last_lies_groupLines level (g.tokens.map (·.lexeme))
    rw [pieceRows, hrows, List.modifyLast_concat]
    simp

/-- A piece opens and closes as many blocks as it says, and no lists. -/
theorem count_marks_pieceRows {p : Piece} (hp : p.Regular) (level : Nat) :
    (layout.pieceRows level p).flatten.count (.mark .openBrace) = (if p.opens then 1 else 0) ∧
      (layout.pieceRows level p).flatten.count (.mark .closeBrace) =
        (if p.closes then 1 else 0) ∧
      (layout.pieceRows level p).flatten.count (.mark .openBracket) =
        (layout.pieceRows level p).flatten.count (.mark .closeBracket) := by
  rw [flatten_pieceRows]
  cases p with
  | comment t =>
    have hflat : Flat [t.lexeme] := flat_comments (List.forall_mem_singleton.2 hp)
    obtain ⟨hob, hcb, hol, hcl⟩ := hflat.count_eq_zero
    exact ⟨hob, hcb, hol.trans hcl.symm⟩
  | group g =>
    obtain ⟨hg, hbeside⟩ := hp
    have hflat : Flat ((g.inner ++ g.beside).map (·.lexeme)) :=
      flat_comments (List.forall_mem_map.2 (isComment_of_mem_inner_append hbeside))
    obtain ⟨hob, hcb, hol, hcl⟩ := hflat.count_eq_zero
    obtain ⟨hopen, hclose, hlist⟩ := (hg.groupLexemes layout level).count_marks
    simp only [pieceLexemes, List.count_append, hob, hcb, hol, hcl, hopen, hclose, hlist,
      Piece.opens, Piece.closes, decide_eq_true_eq, and_self, Nat.add_zero]

theorem openBrace_notMem_of_mem_pieceRows {p : Piece} (hp : p.Regular) (ho : p.opens = false)
    {level : Nat} : ∀ row ∈ layout.pieceRows level p, .mark .openBrace ∉ row := by
  obtain ⟨hopen, -, -⟩ := layout.count_marks_pieceRows hp level
  rw [ho, if_neg Bool.false_ne_true, List.count_eq_zero] at hopen
  exact fun row hr hl => hopen (List.mem_flatten.2 ⟨row, hr, hl⟩)

theorem closeBrace_notMem_of_mem_pieceRows {p : Piece} (hp : p.Regular) (hc : p.closes = false)
    {level : Nat} : ∀ row ∈ layout.pieceRows level p, .mark .closeBrace ∉ row := by
  obtain ⟨-, hclose, -⟩ := layout.count_marks_pieceRows hp level
  rw [hc, if_neg Bool.false_ne_true, List.count_eq_zero] at hclose
  exact fun row hr hl => hclose (List.mem_flatten.2 ⟨row, hr, hl⟩)

theorem inside_pieceRows {p : Piece} (hp : p.Regular) {before : List Lexeme} {level : Nat}
    (hi : Inside before (level + if p.closes then 1 else 0) 0) :
    Inside (before ++ (layout.pieceRows level p).flatten)
      (level + if p.opens then 1 else 0) 0 := by
  obtain ⟨hopen, hclose, hlist⟩ := layout.count_marks_pieceRows hp level
  obtain ⟨hbraces, hbrackets⟩ := hi
  constructor <;> simp only [List.count_append] <;> omega

theorem levelBehind_eq (level : Nat) (g : Group) :
    levelBehind level g = level + if (Piece.group g).opens then 1 else 0 := by
  simp only [levelBehind, Piece.opens, decide_eq_true_eq]
  split <;> rfl

/-- The lines of a piece. -/
theorem laid_pieceLines {p : Piece} (hp : p.Regular) (hs : ∀ t ∈ p.all, Sharp t.lexeme.spelling)
    {before : List Lexeme} {level : Nat} (hi : Inside before (level + if p.closes then 1 else 0) 0)
    (above : Option (List Lexeme)) :
    layout.Laid before above (layout.pieceLines level p) (layout.pieceRows level p) := by
  have hbehind := layout.inside_pieceRows hp hi
  cases p with
  | comment t =>
    have hflat : Flat [t.lexeme] := flat_comments (List.forall_mem_singleton.2 hp)
    exact .line (.of_flat hi (Nat.zero_le 1) hflat (hs t List.mem_cons_self)) (.nil _ _)
  | group g =>
    obtain ⟨hg, hbeside⟩ := hp
    obtain ⟨htaken, hsbeside⟩ := List.forall_mem_append.1 hs
    have hwords : ∀ l ∈ g.tokens.map (·.lexeme), Sharp l.spelling :=
      List.forall_mem_map.2 fun t ht => htaken t (List.mem_filter.1 ht).1
    obtain ⟨lines, line, rows, row, hlines, hrows, hne, hlaid, hlast⟩ :=
      layout.exists_laid_groupLines hg hwords (by simpa [Piece.closes] using hi) above
    have hkept : ∀ t ∈ layout.kept g, Sharp t.lexeme.spelling := fun t ht =>
      hsbeside t (layout.kept_subset g ht)
    have hmoved : ∀ t ∈ layout.moved g, t.isComment = true ∧ Sharp t.lexeme.spelling := by
      intro t ht
      have hmem := layout.moved_subset g ht
      refine ⟨isComment_of_mem_inner_append hbeside t hmem, ?_⟩
      rcases List.mem_append.1 hmem with hmem | hmem
      · exact htaken t (List.mem_filter.1 hmem).1
      · exact hsbeside t hmem
    have hflat : ∀ t ∈ layout.moved g, Flat [t.lexeme] := fun t ht =>
      flat_comments (List.forall_mem_singleton.2 (hmoved t ht).1)
    rw [← levelBehind_eq, pieceRows, hrows, List.modifyLast_concat, List.flatten_append,
      ← List.append_assoc, (Flat.flatten (List.forall_mem_map.2 hflat)).inside_append_iff]
      at hbehind
    rw [pieceLines_group, pieceRows, hlines, hrows, withComments_append_singleton,
      List.modifyLast_concat]
    have hgroup := hlaid.append (.line (hlast.append_beside hne hkept) (.nil _ _))
    exact hgroup.append (.of_flat hbehind (Nat.zero_le 1) hflat fun t ht => (hmoved t ht).2)

/-- The lines of pieces inside so many blocks. The induction is on the pieces; an empty line above
the first of them is put there only if the piece before opened no block. -/
theorem laid_piecesLines {ps : List Piece} {level : Nat} (hn : Nested level ps)
    (hs : ∀ t ∈ ps.flatMap Piece.all, Sharp t.lexeme.spelling) {before : List Lexeme}
    (hi : Inside before level 0) {afterOpening : Bool} {last : Option Nat}
    {above : Option (List Lexeme)}
    (ha : last ≠ none → afterOpening = false → ∃ row, above = some row ∧ .mark .openBrace ∉ row) :
    layout.Laid before above (layout.piecesLines level afterOpening last ps)
      (layout.piecesRows level afterOpening last ps) := by
  induction ps generalizing level before afterOpening last above with
  | nil => exact .nil before above
  | cons p ps ih =>
    obtain ⟨hp, hcloses, hps⟩ := hn
    rw [List.flatMap_cons, List.forall_mem_append] at hs
    obtain ⟨hsp, hsps⟩ := hs
    rw [piecesLines, piecesRows]
    generalize hlevel : (if p.closes then level - 1 else level) = inner at hps ⊢
    have hinner : Inside before (inner + if p.closes then 1 else 0) 0 := by
      rw [← hlevel]
      cases hc : p.closes with
      | false => simpa using hi
      | true =>
        have := hcloses hc
        simpa [Nat.sub_add_cancel this] using hi
    have hbehind := layout.inside_pieceRows hp hinner
    have hnext : Inside (before ++ (layout.pieceRows inner p).flatten)
        (if p.opens then inner + 1 else inner) 0 := by
      cases ho : p.opens <;> simpa [ho] using hbehind
    have hlaid (above : Option (List Lexeme)) : layout.Laid before above
        (layout.pieceLines inner p ++ layout.piecesLines (if p.opens then inner + 1 else inner)
          p.opens (some p.lastLine) ps)
        (layout.pieceRows inner p ++ layout.piecesRows (if p.opens then inner + 1 else inner)
          p.opens (some p.lastLine) ps) := by
      refine (layout.laid_pieceLines hp hsp hinner above).append (ih hps hsps hnext fun _ ho => ?_)
      obtain ⟨row, hrow⟩ := Option.ne_none_iff_exists'.1
        (List.getLast?_eq_none_iff.not.2 (layout.pieceRows_ne_nil inner p))
      exact ⟨row, by rw [hrow, Option.some_or],
        layout.openBrace_notMem_of_mem_pieceRows hp ho row (List.mem_of_getLast? hrow)⟩
    cases hb : layout.blankAbove afterOpening last p with
    | false => simpa using hlaid above
    | true =>
      obtain ⟨hcollapse, hlast, hao, hc⟩ := layout.blankAbove_eq_true hb
      obtain ⟨row, rfl, ho⟩ := ha hlast hao
      obtain ⟨first, rows, hfirst⟩ := List.exists_cons_of_ne_nil (layout.pieceRows_ne_nil inner p)
      have hhead : first.head? ≠ some (.mark .closeBrace) := fun hh =>
        layout.closeBrace_notMem_of_mem_pieceRows hp hc first (hfirst ▸ List.mem_cons_self)
          (List.mem_of_mem_head? hh)
      have hbelow := hlaid none
      rw [hfirst] at hbelow ⊢
      exact .blank hcollapse ho hhead hbelow

end KeyRemap.Layout
