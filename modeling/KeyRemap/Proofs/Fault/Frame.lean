import KeyRemap.Proofs.Script.Earliest
import KeyRemap.Proofs.Script.Words
import KeyRemap.Proofs.Text.Lines

/-!
# Frames of errors

An error of a script stands at a character that is no blank, or at the end of the text
(`pointsInto_of_read`), so it is on a line of the text and its column is at most one behind the
characters of that line. The frame of the error shows that line between its neighbours, as far as
there are any (`shownLines`), with the caret below the column (`frame_of_read_error`).
-/
namespace KeyRemap

open Text

theorem Text.Decimal.length_digits_le {m n : Nat} (h : m ≤ n) :
    (digits m).length ≤ (digits n).length := by
  induction n using Nat.strongRecOn generalizing m with
  | ind n ih =>
    by_cases hm : m < 10
    · rw [digits.eq_def m, if_pos hm]
      exact List.length_pos_iff.2 (digits_ne_nil n)
    · rw [digits.eq_def m, digits.eq_def n, if_neg hm, if_neg (by omega), List.length_append,
        List.length_append]
      exact Nat.add_le_add_right (ih (n / 10) (by omega) (Nat.div_le_div_right h)) 1

theorem Text.newline_notMem_lineText (source : List Char) (number : Nat) :
    '\n' ∉ lineText source number := by
  rw [lineText]
  cases hl : (lines source)[number - 1]? with
  | none => simp
  | some l => exact Script.notMem_newline_of_mem_lines (List.mem_of_getElem? hl)

namespace Position

/-- A position is that of a character that is no blank, or that of the end of a text. -/
def PointsInto (p : Position) (source : List Char) : Prop :=
  ∃ front behind, source = front ++ behind ∧ p = .behind front ∧
    ∀ c ∈ behind.head?, isBlank c = false

/-- A position is on a line of a text, and no further to the right than right behind it. -/
structure InBounds (p : Position) (source : List Char) : Prop where
  one_le_line : 1 ≤ p.line
  line_le : p.line ≤ 1 + source.count '\n'
  one_le_column : 1 ≤ p.column
  column_le : p.column ≤ 1 + (lineText source p.line).length

theorem inBounds_start (source : List Char) : start.InBounds source where
  one_le_line := Nat.le_refl 1
  line_le := Nat.le_add_right 1 _
  one_le_column := Nat.le_refl 1
  column_le := Nat.le_add_right 1 _

theorem PointsInto.inBounds {p : Position} {source : List Char} (h : p.PointsInto source) :
    p.InBounds source := by
  obtain ⟨front, behind, rfl, rfl, hbehind⟩ := h
  have hends : ∀ c ∈ behind.head?, c ≠ '\n' ∧ c ≠ '\r' := by
    intro c hc
    constructor <;> rintro rfl <;> cases hbehind _ hc
  obtain ⟨more, hline, -⟩ := exists_lineText_eq front hends
  rw [Position.behind_eq]
  refine ⟨Nat.le_add_right 1 _, ?_, Nat.le_add_right 1 _, ?_⟩
  · simp only [List.count_append]
    omega
  · simp only [hline, List.length_append]
    omega

end Position

/-- A token stands where the text in front of it ends. -/
theorem Spells.exists_front_of_mem {p : Position} {cs : List Char} {ts : List Token}
    (h : Spells p cs ts) : ∀ t ∈ ts, ∃ front behind,
      cs = front ++ (t.lexeme.spelling ++ behind) ∧ t.position = p.after front := by
  induction h with
  | nil => simp
  | @blank p c cs ts _ _ ih =>
    intro t ht
    obtain ⟨front, behind, rfl, hp⟩ := ih t ht
    exact ⟨c :: front, behind, rfl, hp⟩
  | @token p l cs ts _ ih =>
    rw [List.forall_mem_cons]
    refine ⟨⟨[], cs, rfl, rfl⟩, fun t ht => ?_⟩
    obtain ⟨front, behind, rfl, hp⟩ := ih t ht
    exact ⟨l.spelling ++ front, behind, (List.append_assoc _ _ _).symm,
      hp.trans (Position.after_append p _ _).symm⟩

theorem exists_rest_of_stringBody {cs : List Char} {e : ScanError}
    (h : stringBody cs = .error (some e)) : ∃ front behind, cs = front ++ '\\' :: behind ∧
      e.rest = '\\' :: behind := by
  fun_induction stringBody cs with
  | case1 | case2 | case3 | case4 | case7 | case9 => simp at h
  | case5 c r hc =>
    cases h
    exact ⟨[], c :: r, rfl, rfl⟩
  | case6 c r v hv e' he ih =>
    obtain ⟨front, behind, rfl, hrest⟩ := ih (he.trans h)
    exact ⟨'\\' :: c :: front, behind, rfl, hrest⟩
  | case8 c r _ _ _ _ e' he ih =>
    obtain ⟨front, behind, rfl, hrest⟩ := ih (he.trans h)
    exact ⟨c :: front, behind, rfl, hrest⟩

theorem rest_of_scanNumber {negative : Bool} {r : List Char} {e : ScanError}
    (h : scanNumber negative r = .error e) : e.rest = (if negative then ['-'] else []) ++ r := by
  unfold scanNumber at h
  simp only at h
  split at h
  · cases h
    rfl
  · generalize hv : (if negative then -(Decimal.value (r.takeWhile Char.isDigit) : Int)
      else Decimal.value (r.takeWhile Char.isDigit)) = value at h
    split at h
    · cases h
    · cases h
      rfl

/-- A lexeme that is not read is reported at its first character, or at a backslash in it. -/
theorem exists_rest_of_scan {c : Char} {r : List Char} {e : ScanError} (hc : isBlank c = false)
    (h : scan c r = .error e) : ∃ front d behind, c :: r = front ++ d :: behind ∧
      e.rest = d :: behind ∧ isBlank d = false := by
  have here (he : e.rest = c :: r) : ∃ front d behind, c :: r = front ++ d :: behind ∧
      e.rest = d :: behind ∧ isBlank d = false := ⟨[], c, r, rfl, he, hc⟩
  unfold scan at h
  split at h; · cases h
  split at h
  · rename_i hquote
    subst hquote
    unfold scanString at h
    split at h
    · cases h
      exact here rfl
    · rename_i e' hbody
      cases h
      obtain ⟨front, behind, rfl, hrest⟩ := exists_rest_of_stringBody hbody
      exact ⟨'"' :: front, '\\', behind, rfl, hrest, rfl⟩
    · cases h
  split at h
  · rename_i hslash
    subst hslash
    unfold scanComment at h
    split at h
    · cases h
    · split at h <;> cases h
      exact here rfl
    · cases h
      exact here rfl
  split at h
  · rename_i hminus
    exact here (by simpa [hminus] using rest_of_scanNumber h)
  split at h
  · exact here (by simpa using rest_of_scanNumber h)
  split at h <;> cases h
  exact here rfl

theorem pointsInto_of_tokenizeFrom (done : List Char) {cs : List Char} {e : LexicalError}
    (h : tokenizeFrom (.behind done) cs = .error e) : e.position.PointsInto (done ++ cs) := by
  generalize hp : Position.behind done = p at h
  fun_induction tokenizeFrom p cs generalizing done with
  | case1 => cases h
  | case2 p c r hc ih =>
    have := ih (done ++ [c]) (by rw [← hp, ← Position.after_behind]; rfl) h
    rwa [List.append_assoc] at this
  | case3 p c r hc e' hs =>
    cases h
    obtain ⟨front, d, behind, hcs, hrest, hd⟩ := exists_rest_of_scan (by simpa using hc) hs
    refine ⟨done ++ front, d :: behind, by rw [hcs, List.append_assoc], ?_, by simpa using hd⟩
    rw [← hp, hrest, hcs]
    simp [Position.after_behind]
  | case4 p c r hc l rest hs hlt e' hr ih =>
    cases h
    have := ih (done ++ l.spelling) (by rw [← hp, Position.after_behind]) hr
    rwa [List.append_assoc, (spelling_append_of_scan hs).1] at this
  | case5 => cases h

namespace Script

/-- An error of a text within the limit is that of a character that is no blank, or that of the end
of the text. -/
theorem pointsInto_of_parse {text : List Char} {e : SyntaxError} (h : parse text = .error e) :
    e.position.PointsInto text := by
  unfold parse at h
  split at h
  · rename_i e' ht
    cases h
    exact pointsInto_of_tokenizeFrom [] ht
  · rename_i ts ht
    obtain ⟨-, hp⟩ | ⟨before, t, behind, hw, -, -, hp⟩ :=
      blames_words _ (blames_of_document _ h)
    · exact ⟨text, [], (List.append_nil _).symm, hp.trans (Position.after_start _), by simp⟩
    · have hmem : t ∈ ts := List.mem_of_mem_filter (show t ∈ wordTokens ts by simp [hw])
      obtain ⟨front, rest, hcs, hfront⟩ := (spells_of_tokenizeFrom ht).exists_front_of_mem t hmem
      obtain ⟨c, s, hs, hscan⟩ := spelled_of_tokenizeFrom ht t hmem
      refine ⟨front, t.lexeme.spelling ++ rest, hcs, ?_, ?_⟩
      · rw [hp, hfront, Position.after_start]
      · simpa [hs] using isBlank_eq_false_of_scan hscan

theorem inBounds_of_read {limit : Nat} {source : String} {e : SyntaxError}
    (h : read limit source = .error e) : e.position.InBounds source.toList := by
  unfold read at h
  split at h
  · exact (pointsInto_of_parse h).inBounds
  · cases h
    exact Position.inBounds_start _

end Script

namespace Fault

/-- The lines next to one that a text of so many lines has, and that line in any case. -/
def shownLines (count line : Nat) : List Nat :=
  [line - 1, line, line + 1].filter fun n => n = line ∨ 1 ≤ n ∧ n ≤ count

/-- The number of a line at the right end of a gutter. -/
def gutter (width number : Nat) : List Char :=
  spaces (width - (Decimal.digits number).length) ++ Decimal.digits number

theorem length_gutter {width number : Nat} (h : (Decimal.digits number).length ≤ width) :
    (gutter width number).length = width := by
  simp [gutter, spaces, h]

/-- The row of a line, and that of the caret below the line of the position. -/
def drawnRows (p : Position) (source : List Char) (width number : Nat) : List (List Char) :=
  (gutter width number ++ " | ".toList ++ lineText source number) ::
    if number = p.line then [spaces width ++ " | ".toList ++ spaces (p.column - 1) ++ ['^']] else []

theorem filter_range'_eq {count line : Nat} (h : 1 ≤ line) :
    (List.range' (max (line - 1) 1) (min (line + 1) (max count line) + 1 - max (line - 1) 1)).filter
      (fun n => n = line ∨ n ≤ count) = shownLines count line := by
  -- both lists are in order, so it is enough that they have the same members
  have hrange := (List.pairwise_lt_range' (s := max (line - 1) 1)
    (n := min (line + 1) (max count line) + 1 - max (line - 1) 1)).filter
      (fun n => n = line ∨ n ≤ count)
  have hshown : (shownLines count line).Pairwise (· < ·) := by
    refine List.Pairwise.filter _ ?_
    simp
    omega
  refine List.Perm.eq_of_pairwise (fun a b _ _ hab hba => absurd hab (Nat.lt_asymm hba))
    hrange hshown ((List.perm_ext_iff_of_nodup (hrange.imp Nat.ne_of_lt)
      (hshown.imp Nat.ne_of_lt)).2 fun n => ?_)
  simp only [shownLines, List.mem_filter, List.mem_range'_1, List.mem_cons, List.not_mem_nil,
    or_false, decide_eq_true_eq]
  omega

variable (f : Fault) (source : List Char)

theorem row?_eq (number : Nat) : f.row? (lines source) number =
    if number = f.position.line ∨ number ≤ (lines source).length then
      some ⟨number, lineText source number,
        if number = f.position.line then some (f.position.column - 1) else none⟩
    else none := by
  unfold row? lineText
  by_cases hn : number = f.position.line <;> simp [hn]

theorem print_row (width number : Nat) :
    Row.print width ⟨number, lineText source number,
      if number = f.position.line then some (f.position.column - 1) else none⟩ =
        drawnRows f.position source width number := by
  by_cases hn : number = f.position.line <;> simp [Row.print, drawnRows, gutter, hn]

/-- The rows are those of the lines to show. -/
theorem flatMap_rows (h : 1 ≤ f.position.line) (width : Nat) :
    (f.rows source).flatMap (Row.print width) =
      (shownLines (lines source).length f.position.line).flatMap
        (drawnRows f.position source width) := by
  rw [← filter_range'_eq h, rows, lastRow, firstRow]
  generalize List.range' _ _ = numbers
  induction numbers with
  | nil => rfl
  | cons number numbers ih =>
    by_cases hn : number = f.position.line ∨ number ≤ (lines source).length
    · rw [List.filterMap_cons_some ((row?_eq f source number).trans (if_pos hn)),
        List.filter_cons_of_pos (by simpa using hn), List.flatMap_cons, List.flatMap_cons, ih,
        print_row]
    · rw [List.filterMap_cons_none ((row?_eq f source number).trans (if_neg hn)),
        List.filter_cons_of_neg (by simpa using hn), ih]

/-- What a frame says above its rows. -/
def heading (width : Nat) : List (List Char) :=
  ["error: ".toList ++ f.message.toList,
    spaces width ++ "--> ".toList ++ f.position.text.toList, spaces width ++ " |".toList]

/-- What a frame says below its rows. -/
def advice (width : Nat) : List (List Char) :=
  match f.hint with
  | none => []
  | some hint => [spaces width ++ " = help: ".toList ++ hint.toList]

theorem frameLines_eq (h : 1 ≤ f.position.line) : ∃ width,
    (∀ n ∈ shownLines (lines source).length f.position.line, (gutter width n).length = width) ∧
    f.frameLines source none = f.heading width ++
      (shownLines (lines source).length f.position.line).flatMap
        (drawnRows f.position source width) ++ f.advice width := by
  refine ⟨(Decimal.digits (f.lastRow source)).length, fun n hn => ?_, ?_⟩
  · refine length_gutter (Decimal.length_digits_le ?_)
    simp only [shownLines, List.mem_filter, List.mem_cons, List.not_mem_nil, or_false,
      decide_eq_true_eq] at hn
    rw [lastRow]
    omega
  · rw [← flatMap_rows f source h]
    cases hh : f.hint <;> simp [frameLines, heading, advice, hh]

end Fault

namespace Script

open Fault

/-- An error is on a line of its text, at most one character behind it. Its frame shows the line
above it, its own and the one below, as far as the text has them and its own in any case, in gutters
of one width, and right below its own line the caret, as far to the right as the column says. -/
theorem frame_of_read_error {limit : Nat} {source : String} {e : SyntaxError}
    (h : read limit source = .error e) :
    e.position.InBounds source.toList ∧
    ∃ width,
      (∀ n ∈ shownLines (lines source.toList).length e.position.line,
        (gutter width n).length = width ∧ '\n' ∉ lineText source.toList n) ∧
      (e.toFault.frame source none).toList = ofLines (e.toFault.heading width ++
        (shownLines (lines source.toList).length e.position.line).flatMap
          (drawnRows e.position source.toList width) ++ e.toFault.advice width) := by
  have hbounds := inBounds_of_read h
  obtain ⟨width, hwidth, hlines⟩ := frameLines_eq e.toFault source.toList hbounds.one_le_line
  refine ⟨hbounds, width, fun n hn => ⟨hwidth n hn, newline_notMem_lineText _ _⟩, ?_⟩
  rw [frame, String.toList_ofList, hlines]
  rfl

/-- The ninth line is ended by a carriage return and a line feed, and the gutter is wider than the
numbers of the lines above the tenth. -/
theorem frame_of_read_error_on_ninth_line :
    ∃ source e, read 64 source = .error e ∧ e.position = ⟨9, 3⟩ ∧
      shownLines (lines source.toList).length e.position.line = [8, 9, 10] ∧
      e.toFault.frame source none = "error: unexpected '\x7d'\n  --> 9:3\n   |\n 8 | \n" ++
        " 9 |   \x7d\n   |   ^\n10 | map\n   = help: remove the extra closing brace\n" ∧
      e.position.InBounds source.toList ∧
      ∃ width,
        (∀ n ∈ shownLines (lines source.toList).length e.position.line,
          (gutter width n).length = width ∧ '\n' ∉ lineText source.toList n) ∧
        (e.toFault.frame source none).toList = ofLines (e.toFault.heading width ++
          (shownLines (lines source.toList).length e.position.line).flatMap
            (drawnRows e.position source.toList width) ++ e.toFault.advice width) := by
  have hread : read 64 "\n\n\n\n\n\n\n\n  \x7d\r\nmap" = .error ⟨⟨9, 3⟩, .strayBrace⟩ := by
    decide +kernel
  exact ⟨_, _, hread, rfl, by decide +kernel, by decide +kernel, frame_of_read_error hread⟩

end Script

end KeyRemap
