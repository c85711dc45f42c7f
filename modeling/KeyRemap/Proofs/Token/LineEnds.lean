import KeyRemap.Proofs.Token.Lossless

/-!
# Texts one below the other

A text behind another and a line end is read as it is read alone, further down: nothing that was
read from the first goes on over the line end. Main statement: `tokenize_append_newline`. It rests
on two facts about reading. A line end behind a text changes nothing of what is read from it
(`tokenizeFrom_append_newline`), and what is read does not depend on the line on which the text
begins, faults included (`tokenizeFrom_down`).
-/
namespace KeyRemap

open Text

section Scanners

variable {r rest : List Char} {l : Lexeme}

theorem takeWhile_append_newline {p : Char → Bool} (hp : p '\n' = false) (cs x : List Char) :
    (cs ++ '\n' :: x).takeWhile p = cs.takeWhile p ∧
      (cs ++ '\n' :: x).dropWhile p = cs.dropWhile p ++ '\n' :: x := by
  induction cs with
  | nil => simp [hp]
  | cons c cs ih =>
    cases hc : p c with
    | true => simp [hc, ih.1, ih.2]
    | false => simp [hc]

theorem scanString_append_newline (h : scanString r = .ok (l, rest)) (x : List Char) :
    scanString (r ++ '\n' :: x) = .ok (l, rest ++ '\n' :: x) := by
  unfold scanString at h
  split at h
  · cases h
  · cases h
  · rename_i value raw rest' hb
    cases h
    rw [← raw_append_of_stringBody hb, List.append_assoc, scanString, stringBody_append hb]

theorem scanComment_append_newline (h : scanComment r = .ok (l, rest)) (x : List Char) :
    scanComment (r ++ '\n' :: x) = .ok (l, rest ++ '\n' :: x) := by
  unfold scanComment at h
  split at h
  · rename_i r
    cases h
    have hline := (takeWhile_append_newline (p := (· != '\n')) rfl ('/' :: '/' :: r) x).1
    -- the blanks that are cut off are part of the line, so the cut is in front of the line end
    have hle : (trimEnd (('/' :: '/' :: r).takeWhile (· != '\n'))).length ≤
        ('/' :: '/' :: r).length := by
      obtain ⟨bs, -, hbs⟩ := trimEnd_append_blanks (('/' :: '/' :: r).takeWhile (· != '\n'))
      have hcut := congrArg List.length hbs
      rw [List.length_append] at hcut
      exact (Nat.le_of_add_right_le hcut.le).trans ((List.takeWhile_sublist _).length_le)
    rw [List.cons_append, scanComment]
    simp only [← List.cons_append, hline, List.drop_append_of_le_length hle]
  · split at h
    · cases h
    · rename_i raw rest' hb
      cases h
      rw [List.cons_append, ← raw_append_of_blockBody hb, List.append_assoc, scanComment,
        blockBody_append hb]
  · cases h

theorem scanNumber_append_newline {negative : Bool} (h : scanNumber negative r = .ok (l, rest))
    (x : List Char) : scanNumber negative (r ++ '\n' :: x) = .ok (l, rest ++ '\n' :: x) := by
  obtain ⟨htake, hdrop⟩ := takeWhile_append_newline (p := Char.isDigit) rfl r x
  unfold scanNumber at h ⊢
  simp only [htake, hdrop] at h ⊢
  -- with or without a sign, there are digits and their value is in range
  split_ifs at h ⊢
  · cases h; rfl
  · cases h; rfl

/-- What is read from a text is read if a line end follows the text. -/
theorem scan_append_newline {c : Char} (h : scan c r = .ok (l, rest)) (x : List Char) :
    scan c (r ++ '\n' :: x) = .ok (l, rest ++ '\n' :: x) := by
  cases hm : Mark.ofChar? c with
  | some m =>
    simp only [scan, hm] at h ⊢
    cases h
    rfl
  | none =>
    simp only [scan, hm] at h ⊢
    split_ifs at h ⊢
    · exact scanString_append_newline h x
    · exact scanComment_append_newline h x
    · exact scanNumber_append_newline h x
    · exact scanNumber_append_newline h x
    · obtain ⟨htake, hdrop⟩ := takeWhile_append_newline (p := isNamePart) rfl r x
      cases h
      rw [htake, hdrop]

end Scanners

/-- The tokens of a text, whatever stands below it. -/
theorem tokenizeFrom_append_newline {p : Position} {cs : List Char} {ts : List Token}
    (h : tokenizeFrom p cs = .ok ts) (x : List Char) :
    tokenizeFrom p (cs ++ '\n' :: x) =
      (tokenizeFrom ((p.after cs).step '\n') x).map (ts ++ ·) := by
  fun_induction tokenizeFrom p cs generalizing ts with
  | case1 p =>
    cases h
    rw [List.nil_append, tokenizeFrom_blank rfl, Position.after_nil]
    cases tokenizeFrom (p.step '\n') x <;> rfl
  | case2 p c r hc ih =>
    rw [List.cons_append, tokenizeFrom_blank hc, ih h, Position.after_cons]
  | case3 | case4 => cases h
  | case5 p c r hc l rest hs hlt us hr ih =>
    cases h
    have hplace : p.after (c :: r) = (p.after l.spelling).after rest := by
      rw [← (spelling_append_of_scan hs).1, Position.after_append]
    rw [List.cons_append, tokenizeFrom_scan (scan_append_newline hs x), ih hr, hplace]
    cases tokenizeFrom (((p.after l.spelling).after rest).step '\n') x <;> rfl

namespace Position

/-- The place some lines further down. -/
def down (n : Nat) (p : Position) : Position := ⟨p.line + n, p.column⟩

theorem down_step (n : Nat) (p : Position) (c : Char) : (p.down n).step c = (p.step c).down n := by
  unfold step down
  split
  · rw [Nat.add_right_comm]
  · rfl

theorem down_after (n : Nat) (p : Position) (cs : List Char) :
    (p.down n).after cs = (p.after cs).down n := by
  induction cs generalizing p with
  | nil => rfl
  | cons c cs ih => rw [after_cons, after_cons, down_step, ih]

end Position

/-- A token some lines further down. -/
def Token.down (n : Nat) (t : Token) : Token :=
  { t with position := t.position.down n, endLine := t.endLine + n }

theorem Token.place_down (n : Nat) (l : Lexeme) (p : Position) :
    place l (p.down n) = (place l p).down n := by
  rw [place, Position.down_after]
  rfl

/-- A fault some lines further down. -/
def LexicalError.down (n : Nat) (e : LexicalError) : LexicalError :=
  { e with position := e.position.down n }

theorem tokenizeFrom_error {c : Char} {r : List Char} {e : ScanError} (hc : ¬isBlank c = true)
    (h : scan c r = .error e) (p : Position) : tokenizeFrom p (c :: r) =
      .error ⟨p.after ((c :: r).take ((c :: r).length - e.rest.length)), e.fault⟩ := by
  rw [tokenizeFrom.eq_def]
  simp only [if_neg hc]
  split
  · rename_i he
    rw [h] at he
    cases he
    rfl
  · rename_i he
    rw [h] at he
    cases he

/-- A text is read in the same way from any line on. -/
theorem tokenizeFrom_down (n : Nat) (p : Position) (cs : List Char) :
    tokenizeFrom (p.down n) cs =
      ((tokenizeFrom p cs).map (·.map (·.down n))).mapError (·.down n) := by
  fun_induction tokenizeFrom p cs with
  | case1 p => rw [tokenizeFrom_nil]; rfl
  | case2 p c r hc ih => rw [tokenizeFrom_blank hc, Position.down_step, ih]
  | case3 p c r hc e hs => rw [tokenizeFrom_error hc hs, Position.down_after]; rfl
  | case4 p c r hc l rest hs hlt e hr ih =>
    rw [tokenizeFrom_scan hs, Position.down_after, ih, hr]
    rfl
  | case5 p c r hc l rest hs hlt us hr ih =>
    rw [tokenizeFrom_scan hs, Position.down_after, ih, hr, Token.place_down]
    rfl

/-- Two texts with a line end between them are read as the first and, below it, the second. -/
theorem tokenize_append_newline {as bs : List Char} {ts us : List Token}
    (ha : tokenize as = .ok ts) (hb : tokenize bs = .ok us) :
    tokenize (as ++ '\n' :: bs) = .ok (ts ++ us.map (·.down (1 + as.count '\n'))) := by
  have hplace : (Position.start.after as).step '\n' = Position.start.down (1 + as.count '\n') := by
    rw [Position.after_start]
    simp [Position.step, Position.down, Position.start, Nat.add_comm]
  rw [tokenize] at hb
  rw [tokenize, tokenizeFrom_append_newline ha, hplace, tokenizeFrom_down, hb]
  rfl

/-- A text of two lines that ends in a line comment with blanks behind it, above one that begins
with a block comment over two lines. -/
theorem tokenize_append_newline_of_comments :
    ∃ as bs ts us, tokenize as = .ok ts ∧ tokenize bs = .ok us ∧ as.count '\n' = 1 ∧
      us = [⟨.blockComment "/* b\n */", ⟨1, 1⟩, 2⟩, ⟨.number (-7) "-7", ⟨2, 5⟩, 2⟩] ∧
      tokenize (as ++ '\n' :: bs) = .ok (ts ++
        [⟨.blockComment "/* b\n */", ⟨3, 1⟩, 4⟩, ⟨.number (-7) "-7", ⟨4, 5⟩, 4⟩]) := by
  have ha : tokenize "x \"a\"\n5 // a \t ".toList = .ok
      [⟨.name "x", ⟨1, 1⟩, 1⟩, ⟨.quoted "a" "\"a\"", ⟨1, 3⟩, 1⟩, ⟨.number 5 "5", ⟨2, 1⟩, 2⟩,
        ⟨.lineComment "// a", ⟨2, 3⟩, 2⟩] := by decide +kernel
  have hb : tokenize "/* b\n */ -7".toList = .ok
      [⟨.blockComment "/* b\n */", ⟨1, 1⟩, 2⟩, ⟨.number (-7) "-7", ⟨2, 5⟩, 2⟩] := by decide +kernel
  exact ⟨_, _, _, _, ha, hb, by decide, rfl, tokenize_append_newline ha hb⟩

end KeyRemap
