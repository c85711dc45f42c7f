import KeyRemap.Layout.Format
import KeyRemap.Proofs.Token.Stretch

/-!
# The tokens of a layout

The lexemes of a text that was laid out follow from the pieces: those of each group with the commas
of its list settled, and then its comments (`tokenize_format`). Two lexemes on a line never run
into each other, and a line comment is the last thing on its line because it was so in the text.
-/
namespace KeyRemap.Layout

open Text

/-- Lexemes without the commas in front of closing brackets. -/
def trimCommas : List Lexeme → List Lexeme
  | [] => []
  | l :: ls =>
    if l = .mark .comma && ls.head? = some (.mark .closeBracket) then trimCommas ls
    else l :: trimCommas ls

theorem trimCommas_ne_nil {ls : List Lexeme} (h : ls ≠ []) : trimCommas ls ≠ [] := by
  induction ls with
  | nil => exact absurd rfl h
  | cons l ls ih =>
    rw [trimCommas]
    split
    · rename_i hc
      refine ih fun hn => ?_
      simp [hn] at hc
    · exact List.cons_ne_nil _ _

/-- The characters that no name or number goes on with. -/
def Stops (x : List Char) : Prop := ∀ c ∈ x.head?, isNamePart c = false

theorem stops_newline (x : List Char) : Stops ('\n' :: x) := by
  simp [Stops]
  rfl

theorem stops_space (x : List Char) : Stops (' ' :: x) := by
  simp [Stops]
  rfl

theorem stops_mark (m : Mark) (x : List Char) : Stops (m.char :: x) := by
  simpa [Stops] using isNamePart_mark m

theorem endsBefore_of_stops {l : Lexeme} (hl : l.isLineComment = false) {x : List Char}
    (hx : Stops x) : l.EndsBefore x := by
  cases l with
  | name | number => exact hx
  | lineComment => cases hl
  | quoted | mark | blockComment => trivial

/-- Without a space between two lexemes, one of them is a mark that keeps them apart. -/
theorem endsBefore_of_not_spaced {left l : Lexeme} (hl : left.isLineComment = false)
    (h : spaced left l = false) (x : List Char) : left.EndsBefore (l.spelling ++ x) := by
  unfold spaced at h
  split at h
  · trivial
  · trivial
  · exact endsBefore_of_stops hl (stops_mark .closeParen x)
  · exact endsBefore_of_stops hl (stops_mark .closeBracket x)
  · exact endsBefore_of_stops hl (stops_mark .comma x)
  · exact endsBefore_of_stops hl (stops_mark .semicolon x)
  · exact stops_mark .openParen x
  · cases h

/-- What stands between a lexeme and the one in front of it. -/
def gap (left : Option Lexeme) (l : Lexeme) : List Char :=
  match left with
  | some left => if spaced left l then [' '] else []
  | none => []

theorem yields_gap (left : Option Lexeme) (l : Lexeme) (x : List Char) :
    Yields (gap left l) [] x := by
  refine .blanks (fun c hc => ?_) x
  unfold gap at hc
  split at hc
  · split at hc
    · rw [List.mem_singleton.1 hc]
      rfl
    · cases hc
  · cases hc

theorem joinedAfter_cons (left : Option Lexeme) (l : Lexeme) (ls : List Lexeme) :
    joinedAfter left (l :: ls) =
      if l = .mark .comma && ls.head? = some (.mark .closeBracket) then joinedAfter left ls
      else gap left l ++ l.spelling ++ joinedAfter (some l) ls := by
  cases left <;> rfl

/-- What is joined behind a lexeme does not go on with it. -/
theorem endsBefore_joinedAfter {left : Lexeme} (hl : left.isLineComment = false)
    (ls : List Lexeme) {x : List Char} (hx : Stops x) :
    left.EndsBefore (joinedAfter (some left) ls ++ x) := by
  induction ls with
  | nil => exact endsBefore_of_stops hl hx
  | cons l ls ih =>
    rw [joinedAfter_cons]
    split
    · exact ih
    · cases hs : spaced left l with
      | true =>
        simp only [gap, hs, if_true]
        exact endsBefore_of_stops hl (stops_space _)
      | false =>
        simp only [gap, hs, Bool.false_eq_true, if_false, List.nil_append, List.append_assoc]
        exact endsBefore_of_not_spaced hl hs _

/-- Lexemes joined on a line are read again, but for the commas in front of closing brackets. -/
theorem yields_joinedAfter {ls : List Lexeme} (hs : ∀ l ∈ ls, l.Spelled)
    (hc : ∀ l ∈ ls, l.isLineComment = false) (left : Option Lexeme) {x : List Char}
    (hx : Stops x) : Yields (joinedAfter left ls) (trimCommas ls) x := by
  induction ls generalizing left with
  | nil => exact .nil x
  | cons l ls ih =>
    have ih := ih (fun m hm => hs m (List.mem_cons_of_mem l hm))
      (fun m hm => hc m (List.mem_cons_of_mem l hm))
    rw [joinedAfter_cons, trimCommas]
    split
    · exact ih left
    · have hl := hc l List.mem_cons_self
      have hlex := Yields.lexeme (hs l List.mem_cons_self) (endsBefore_joinedAfter hl ls hx)
      exact ((yields_gap left l _).append hlex).append (ih (some l))

theorem yields_joined {ls : List Lexeme} (hs : ∀ l ∈ ls, l.Spelled)
    (hc : ∀ l ∈ ls, l.isLineComment = false) {x : List Char} (hx : Stops x) :
    Yields (joined ls) (trimCommas ls) x :=
  yields_joinedAfter hs hc none hx

/-- A list is parted at the first place where it has a lexeme. -/
theorem eq_append_of_dropWhile {a b : Lexeme} {ls bs : List Lexeme}
    (h : ls.dropWhile (· ≠ a) = b :: bs) :
    b = a ∧ ls = ls.takeWhile (· ≠ a) ++ a :: bs ∧ a ∉ ls.takeWhile (· ≠ a) := by
  have ha := List.takeWhile_append_dropWhile (p := (· ≠ a)) (l := ls)
  rw [h] at ha
  have hb : b = a := by
    have := List.head?_dropWhile_not (· ≠ a) ls
    rw [h] at this
    simpa using this
  refine ⟨hb, hb ▸ ha.symm, fun hm => ?_⟩
  simpa using List.mem_takeWhile_imp hm

/-- The parts of a statement with a list are the statement, parted at its first opening and its last
closing bracket. -/
theorem splitList?_eq_some {ls front members back : List Lexeme}
    (h : splitList? ls = some (front, members, back)) : ∃ head tail,
      front = head ++ [.mark .openBracket] ∧ back = .mark .closeBracket :: tail ∧
      ls = front ++ members ++ back ∧ .mark .openBracket ∉ head ∧ .mark .closeBracket ∉ tail := by
  unfold splitList? at h
  split at h
  · cases h
  · rename_i bracket body hb
    simp only at h
    split at h
    · cases h
    · cases h
    · rename_i closing ms hne hc
      simp only [Option.some.injEq, Prod.mk.injEq] at h
      obtain ⟨rfl, rfl, rfl⟩ := h
      obtain ⟨rfl, hls, ho⟩ := eq_append_of_dropWhile hb
      obtain ⟨rfl, hbody, hcl⟩ := eq_append_of_dropWhile hc
      refine ⟨_, _, rfl, rfl, ?_, ho, fun hm => hcl (List.mem_reverse.1 hm)⟩
      have hr : body = ms.reverse ++ .mark .closeBracket ::
          (body.reverse.takeWhile (· ≠ .mark .closeBracket)).reverse := by
        simpa using congrArg List.reverse hbody
      rw [List.append_assoc, ← hr, List.append_assoc, List.singleton_append, ← hls]

/-- The members of a list consist of its lexemes. -/
theorem mem_of_mem_membersAfter {current ls m : List Lexeme} {l : Lexeme}
    (hm : m ∈ membersAfter current ls) (hl : l ∈ m) : l ∈ current ∨ l ∈ ls := by
  induction ls generalizing current with
  | nil =>
    unfold membersAfter at hm
    split at hm
    · cases hm
    · rw [List.mem_singleton.1 hm] at hl
      exact .inl hl
  | cons k ls ih =>
    unfold membersAfter at hm
    split at hm
    · rcases List.mem_append.1 hm with hm | hm
      · split at hm
        · cases hm
        · rw [List.mem_singleton.1 hm] at hl
          exact .inl hl
      · exact .inr (List.mem_cons_of_mem k ((ih hm).resolve_left List.not_mem_nil))
    · rcases ih hm with h | h
      · rcases List.mem_append.1 h with h | h
        · exact .inl h
        · exact .inr (List.mem_singleton.1 h ▸ List.mem_cons_self)
      · exact .inr (List.mem_cons_of_mem k h)

variable (layout : Layout)

/-- The lexemes of a group as it is laid out. -/
def groupLexemes (level : Nat) (ls : List Lexeme) : List Lexeme :=
  match splitList? ls with
  | none => trimCommas ls
  | some (front, members, back) =>
    if (layout.indent level ++ joined ls).length ≤ layout.maxLineLength then trimCommas ls
    else
      trimCommas front ++
        (membersAfter [] members).flatMap (fun m => trimCommas m ++ [.mark .comma]) ++
        trimCommas back

/-- Lexemes that can stand on one line. -/
def Plain (ls : List Lexeme) : Prop := ∀ l ∈ ls, l.Spelled ∧ l.isLineComment = false

theorem Plain.append_iff {ls ms : List Lexeme} : Plain (ls ++ ms) ↔ Plain ls ∧ Plain ms :=
  List.forall_mem_append

theorem Plain.membersAfter {ls m : List Lexeme} (h : Plain ls) (hm : m ∈ membersAfter [] ls) :
    Plain m :=
  fun l hl => h l ((mem_of_mem_membersAfter hm hl).resolve_left List.not_mem_nil)

/-- A line at a level. -/
theorem Plain.yields {ls : List Lexeme} (h : Plain ls) (level : Nat) {x : List Char}
    (hx : Stops x) : Yields (layout.indent level ++ joined ls) (trimCommas ls) x :=
  (Yields.spaces _ _).append (yields_joined (fun l hl => (h l hl).1) (fun l hl => (h l hl).2) hx)

/-- A line with a member of a list. -/
theorem Plain.yields_member {ls : List Lexeme} (h : Plain ls) (level : Nat) (x : List Char) :
    Yields (layout.indent level ++ joined ls ++ [',']) (trimCommas ls ++ [.mark .comma]) x := by
  have hc : Yields [','] [.mark .comma] x := Yields.lexeme (Lexeme.spelled_mark .comma) trivial
  exact (h.yields layout level (stops_mark .comma x)).append hc

/-- What the lines of a group consist of; more can stand behind the last of them. -/
theorem exists_last_groupLines (level : Nat) {ls : List Lexeme} (h : Plain ls) :
    ∃ lines last ms ns, layout.groupLines level ls = lines ++ [last] ∧
      layout.groupLexemes level ls = ms ++ ns ∧ LinesYield lines ms ∧
      ∀ x, Stops x → Yields last ns x := by
  have hsingle (x : List Char) (hx : Stops x) := h.yields layout level hx
  unfold groupLines groupLexemes
  cases hs : splitList? ls with
  | none => exact ⟨[], _, [], _, rfl, rfl, .nil, hsingle⟩
  | some parts =>
    obtain ⟨front, members, back⟩ := parts
    simp only
    split
    · exact ⟨[], _, [], _, rfl, rfl, .nil, hsingle⟩
    · obtain ⟨-, -, -, -, rfl, -, -⟩ := splitList?_eq_some hs
      obtain ⟨hfm, hback⟩ := Plain.append_iff.1 h
      obtain ⟨hfront, hmembers⟩ := Plain.append_iff.1 hfm
      refine ⟨_, _, _, _, rfl, rfl, ?_, fun x hx => hback.yields layout level hx⟩
      have hf : LinesYield [layout.indent level ++ joined front] (trimCommas front) :=
        .single fun x => hfront.yields layout level (stops_newline x)
      refine hf.append ?_
      rw [List.map_eq_flatMap]
      exact .flatMap fun m hm => .single fun x =>
        (hmembers.membersAfter hm).yields_member layout (level + 1) _

theorem withComments_append_singleton (comments : List Token) (lines : List (List Char))
    (last : List Char) : withComments comments (lines ++ [last]) =
      lines ++ [last ++ comments.flatMap fun t => ' ' :: t.lexeme.spelling] := by
  simp [withComments]

/-- The lexemes of a piece as it is laid out. -/
def pieceLexemes (level : Nat) : Piece → List Lexeme
  | .comment t => [t.lexeme]
  | .group g =>
    layout.groupLexemes level (g.tokens.map (·.lexeme)) ++ (g.inner ++ g.beside).map (·.lexeme)

/-- The lexemes of pieces as they are laid out. -/
def piecesLexemes (level : Nat) : List Piece → List Lexeme
  | [] => []
  | p :: ps =>
    let level := if p.closes then level - 1 else level
    layout.pieceLexemes level p ++ piecesLexemes (if p.opens then level + 1 else level) ps

/-- Tokens of which only the last can be a line comment. -/
def Trailing (ts : List Token) : Prop := ts.IsChain fun t _ => t.lexeme.isLineComment = false

/-- Comments at the end of a line. -/
theorem yields_beside {ts : List Token} (hs : ∀ t ∈ ts, t.lexeme.Spelled) (ht : Trailing ts)
    (hc : ∀ t ∈ ts, t.isComment = true) (x : List Char) :
    Yields (ts.flatMap fun t => ' ' :: t.lexeme.spelling) (ts.map (·.lexeme)) ('\n' :: x) := by
  induction ts with
  | nil => exact .nil _
  | cons t ts ih =>
    have ih := ih (fun u hu => hs u (List.mem_cons_of_mem t hu)) ht.tail
      (fun u hu => hc u (List.mem_cons_of_mem t hu))
    have hspace (y : List Char) : Yields [' '] [] y := Yields.spaces 1 y
    have hlex : Yields t.lexeme.spelling [t.lexeme]
        (ts.flatMap (fun t => ' ' :: t.lexeme.spelling) ++ '\n' :: x) := by
      refine .lexeme (hs t List.mem_cons_self) ?_
      cases ts with
      | nil => exact t.lexeme.endsBefore_newline x
      | cons u us => exact endsBefore_of_stops (List.isChain_cons_cons.1 ht).1 (stops_space _)
    exact ((hspace _).append hlex).append ih

namespace Piece

/-- A piece whose lines are read again. -/
def Legible : Piece → Prop
  | .comment t => t.lexeme.Spelled
  | .group g => (∀ t ∈ g.taken ++ g.beside, t.lexeme.Spelled) ∧ Trailing g.beside ∧
      ∀ t ∈ g.beside, t.isComment = true

end Piece

theorem linesYield_comment {t : Token} (h : t.lexeme.Spelled) (level : Nat) :
    LinesYield [layout.indent level ++ t.lexeme.spelling] [t.lexeme] :=
  .single fun x => (Yields.spaces _ _).append (.lexeme h (t.lexeme.endsBefore_newline x))

/-- Comments below a group. -/
theorem linesYield_below {ts : List Token} (h : ∀ t ∈ ts, t.lexeme.Spelled) (level : Nat) :
    LinesYield (ts.map fun t => layout.indent level ++ t.lexeme.spelling) (ts.map (·.lexeme)) := by
  rw [List.map_eq_flatMap, List.map_eq_flatMap]
  exact .flatMap fun t ht => linesYield_comment layout (h t ht) level

theorem linesYield_pieceLines {p : Piece} (h : p.Legible) (level : Nat) :
    LinesYield (layout.pieceLines level p) (layout.pieceLexemes level p) := by
  cases p with
  | comment t => exact linesYield_comment layout h level
  | group g =>
    obtain ⟨hs, ht, hc⟩ := h
    obtain ⟨htaken, hbeside⟩ := List.forall_mem_append.1 hs
    have hplain : Plain (g.tokens.map (·.lexeme)) := by
      intro l hl
      obtain ⟨t, hm, rfl⟩ := List.mem_map.1 hl
      obtain ⟨hm, hn⟩ := List.mem_filter.1 hm
      exact ⟨htaken t hm, Lexeme.isLineComment_eq_false (by simpa [Token.isComment] using hn)⟩
    obtain ⟨lines, last, ms, ns, hlines, hlexemes, hy, hlast⟩ :=
      exists_last_groupLines layout level hplain
    simp only [pieceLines, pieceLexemes, hlines, hlexemes]
    split
    · rename_i hk
      have hi : g.inner = [] := by simpa using And.right (by simpa using hk)
      rw [withComments_append_singleton, hi, List.nil_append, List.append_assoc]
      refine hy.append (.single fun x => (hlast _ ?_).append (yields_beside hbeside ht hc x))
      cases g.beside with
      | nil => exact stops_newline x
      | cons t ts => exact stops_space _
    · refine .append (hy.append (.single fun x => hlast _ (stops_newline x))) ?_
      refine linesYield_below layout (fun t ht => ?_) _
      rcases List.mem_append.1 ht with ht | ht
      · exact htaken t (List.mem_filter.1 ht).1
      · exact hbeside t ht

theorem linesYield_piecesLines {ps : List Piece} (h : ∀ p ∈ ps, p.Legible) (level : Nat)
    (afterOpening : Bool) (last : Option Nat) :
    LinesYield (layout.piecesLines level afterOpening last ps) (layout.piecesLexemes level ps) := by
  induction ps generalizing level afterOpening last with
  | nil => exact .nil
  | cons p ps ih =>
    have hb : LinesYield (if layout.blankAbove afterOpening last p then [[]] else []) [] := by
      split
      · exact .blank
      · exact .nil
    have hp := linesYield_pieceLines layout (h p List.mem_cons_self)
      (if p.closes then level - 1 else level)
    exact (hb.append hp).append (ih (fun q hq => h q (List.mem_cons_of_mem p hq)) _ _ _)

theorem isComment_of_mem_splitBeside {line : Nat} {ts : List Token} :
    ∀ t ∈ (splitBeside line ts).1, t.isComment = true := by
  fun_induction splitBeside line ts with
  | case1 | case3 => simp
  | case2 line t ts h beside rest hr ih =>
    rw [hr] at ih
    rw [Bool.and_eq_true] at h
    exact List.forall_mem_cons.2 ⟨h.1, ih⟩

/-- Comments that begin where the one before ends stand behind no line comment. -/
theorem trailing_splitBeside {line : Nat} {ts : List Token} (h : ts.IsChain ClosesLine) :
    Trailing (splitBeside line ts).1 := by
  induction ts generalizing line with
  | nil => exact .nil
  | cons t ts ih =>
    rw [splitBeside]
    split
    · refine (ih h.tail).cons fun u hu => ?_
      cases ts with
      | nil => cases hu
      | cons v vs =>
        rw [splitBeside] at hu
        split at hu
        · rename_i hv
          obtain rfl : v = u := by simpa using hu
          have hline : v.position.line = t.endLine := by simp_all
          have hlt := (List.isChain_cons_cons.1 h).1
          cases hl : t.lexeme.isLineComment with
          | false => rfl
          | true => exact absurd (hlt hl) (by omega)
        · cases hu
    · exact .nil

/-- Where the parts of a group come from. -/
theorem exists_takeGroup (t : Token) (ts : List Token) : ∃ line us,
    (takeGroup t ts).1.taken ++ us = t :: ts ∧
      (takeGroup t ts).1.beside = (splitBeside line us).1 ∧
      (takeGroup t ts).2 = (splitBeside line us).2 := by
  have h := takeGroup_append t ts
  rw [List.append_assoc] at h
  refine ⟨_, _, ?_, rfl, rfl⟩
  rw [← h]
  exact congrArg _ (splitBeside_append _ _).symm

/-- The pieces of a text are legible. -/
theorem legible_of_mem_pieces {ts : List Token} (hs : ∀ t ∈ ts, t.lexeme.Spelled)
    (hc : ts.IsChain ClosesLine) : ∀ p ∈ pieces ts, p.Legible := by
  fun_induction pieces ts with
  | case1 => simp
  | case2 t ts ht ih =>
    obtain ⟨hst, hs⟩ := List.forall_mem_cons.1 hs
    exact List.forall_mem_cons.2 ⟨hst, ih hs hc.tail⟩
  | case3 t ts ht ih =>
    obtain ⟨line, us, hu, hb, hr⟩ := exists_takeGroup t ts
    have ha := takeGroup_append t ts
    rw [← ha] at hs hc
    obtain ⟨hsg, hsr⟩ := List.forall_mem_append.1 hs
    refine List.forall_mem_cons.2 ⟨⟨hsg, ?_, ?_⟩, ih hsr hc.right_of_append⟩
    · rw [ha, ← hu] at hc
      exact hb ▸ trailing_splitBeside hc.right_of_append
    · exact hb ▸ isComment_of_mem_splitBeside

/-- The lexemes of a text as it is laid out. -/
def lexemes (ts : List Token) : List Lexeme := layout.piecesLexemes 0 (pieces ts)

theorem format_of_tokenize {text : List Char} {ts : List Token} (h : tokenize text = .ok ts) :
    layout.format text = ofLines (layout.tokenLines ts) := by
  rw [format, format?, h]
  rfl

/-- A text that consists of tokens consists of them when it is laid out, but for the commas of its
lists. -/
theorem tokenize_format {text : List Char} {ts : List Token} (h : tokenize text = .ok ts) :
    ∃ us, tokenize (layout.format text) = .ok us ∧ us.map (·.lexeme) = layout.lexemes ts := by
  have hp := legible_of_mem_pieces (spelled_of_tokenizeFrom h) (isChain_of_tokenizeFrom h)
  obtain ⟨us, hus, hl⟩ := (linesYield_piecesLines layout hp 0 false none).tokenize_eq
  refine ⟨us, ?_, hl⟩
  rw [layout.format_of_tokenize h]
  exact hus

end KeyRemap.Layout
