import KeyRemap.Proofs.Token.Spelling
import KeyRemap.Text.Lines
import Mathlib.Data.List.Chain

/-!
# Tokens one stretch after another

`Yields cs ls x` says that a text `cs` in front of `x` consists of the lexemes `ls` and blanks,
wherever it stands. Stretches are put together by `Yields.append`, and the smallest are blanks and
single lexemes. Conversely the tokens of any text are spelled as their lexemes are read
(`spelled_of_tokenizeFrom`), and nothing follows a line comment on its line
(`isChain_of_tokenizeFrom`).
-/
namespace KeyRemap

open Text

namespace Lexeme

/-- A lexeme that is read from its own spelling. -/
def Spelled (l : Lexeme) : Prop := ∃ c s, l.spelling = c :: s ∧ scan c s = .ok (l, [])

/-- The lexemes that reach to the end of their line. -/
def isLineComment : Lexeme → Bool
  | .lineComment _ => true
  | _ => false

theorem isLineComment_eq_false {l : Lexeme} (h : l.isComment = false) :
    l.isLineComment = false := by
  cases l with
  | lineComment => cases h
  | _ => rfl

end Lexeme

theorem Lexeme.spelled_mark (m : Mark) : (Lexeme.mark m).Spelled :=
  ⟨m.char, [], rfl, by simp [scan]⟩

/-- What is read from any text is spelled as it is read. -/
theorem spelled_of_scan {c : Char} {r rest : List Char} {l : Lexeme}
    (h : scan c r = .ok (l, rest)) : l.Spelled := by
  obtain ⟨hs, hn⟩ := spelling_append_of_scan h
  obtain ⟨d, s, hl⟩ := List.exists_cons_of_ne_nil hn
  rw [hl, List.cons_append, List.cons.injEq] at hs
  obtain ⟨rfl, -⟩ := hs
  exact ⟨d, s, hl, by simpa using scan_append h hl l.endsBefore_nil⟩

theorem tokenizeFrom_nil (p : Position) : tokenizeFrom p [] = .ok [] := by
  rw [tokenizeFrom.eq_def]

theorem tokenizeFrom_blank {c : Char} (hc : isBlank c = true) (p : Position) (r : List Char) :
    tokenizeFrom p (c :: r) = tokenizeFrom (p.step c) r := by
  rw [tokenizeFrom.eq_def]
  exact if_pos hc

theorem tokenizeFrom_scan {c : Char} {r rest : List Char} {l : Lexeme}
    (h : scan c r = .ok (l, rest)) (p : Position) :
    tokenizeFrom p (c :: r) =
      (tokenizeFrom (p.after l.spelling) rest).map (Token.place l p :: ·) := by
  rw [tokenizeFrom.eq_def]
  simp only [isBlank_eq_false_of_scan h, Bool.false_eq_true, if_false]
  split
  · rename_i e he
    rw [h] at he
    cases he
  · rename_i l' rest' he
    rw [h] at he
    cases he
    cases tokenizeFrom (p.after l.spelling) rest <;> rfl

/-- The text `cs`, in front of `x`, consists of the lexemes `ls` and blanks. -/
def Yields (cs : List Char) (ls : List Lexeme) (x : List Char) : Prop :=
  ∀ p, ∃ ts, ts.map Token.lexeme = ls ∧
    tokenizeFrom p (cs ++ x) = (tokenizeFrom (p.after cs) x).map (ts ++ ·)

namespace Yields

theorem nil (x : List Char) : Yields [] [] x := by
  intro p
  refine ⟨[], rfl, ?_⟩
  cases h : tokenizeFrom p x <;> simp [h, Except.map]

/-- Stretches one behind the other. -/
theorem append {cs ds x : List Char} {ls ms : List Lexeme} (hc : Yields cs ls (ds ++ x))
    (hd : Yields ds ms x) : Yields (cs ++ ds) (ls ++ ms) x := by
  intro p
  obtain ⟨ts, hts, hct⟩ := hc p
  obtain ⟨us, hus, hdu⟩ := hd (p.after cs)
  refine ⟨ts ++ us, by rw [List.map_append, hts, hus], ?_⟩
  rw [List.append_assoc, hct, hdu, Position.after_append]
  cases tokenizeFrom ((p.after cs).after ds) x <;> simp [Except.map]

theorem blanks {bs : List Char} (hb : ∀ c ∈ bs, isBlank c = true) (x : List Char) :
    Yields bs [] x := by
  induction bs with
  | nil => exact nil x
  | cons c bs ih =>
    intro p
    obtain ⟨ts, hts, h⟩ := ih (fun d hd => hb d (List.mem_cons_of_mem c hd)) (p.step c)
    exact ⟨ts, hts, by rw [List.cons_append, tokenizeFrom_blank (hb c List.mem_cons_self), h,
      Position.after_cons]⟩

theorem spaces (n : Nat) (x : List Char) : Yields (Text.spaces n) [] x :=
  blanks (fun c hc => by rw [List.eq_of_mem_replicate hc]; rfl) x

/-- A lexeme in front of a text that does not continue it. -/
theorem lexeme {l : Lexeme} (hl : l.Spelled) {x : List Char} (hx : l.EndsBefore x) :
    Yields l.spelling [l] x := by
  intro p
  obtain ⟨c, s, hs, h⟩ := hl
  refine ⟨[Token.place l p], rfl, ?_⟩
  rw [show l.spelling ++ x = c :: (s ++ x) by rw [hs]; rfl, tokenizeFrom_scan (scan_append h hs hx)]
  rfl

/-- The tokens of a stretch that is a whole text. -/
theorem tokenize_eq {cs : List Char} {ls : List Lexeme} (h : Yields cs ls []) :
    ∃ ts, tokenize cs = .ok ts ∧ ts.map Token.lexeme = ls := by
  obtain ⟨ts, hts, he⟩ := h .start
  refine ⟨ts, ?_, hts⟩
  rw [List.append_nil] at he
  rw [tokenize, he, tokenizeFrom_nil]
  simp [Except.map]

end Yields

/-- The lines `lines`, whatever follows them, consist of the lexemes `ls` and blanks. No lexeme goes
on from one of the lines to the next. -/
inductive LinesYield : List (List Char) → List Lexeme → Prop
  | nil : LinesYield [] []
  | cons {line : List Char} {lines : List (List Char)} {ls ms : List Lexeme}
    (h : ∀ x, Yields line ls ('\n' :: x)) (hs : LinesYield lines ms) :
    LinesYield (line :: lines) (ls ++ ms)

namespace LinesYield

theorem append {as bs : List (List Char)} {ls ms : List Lexeme} (ha : LinesYield as ls)
    (hb : LinesYield bs ms) : LinesYield (as ++ bs) (ls ++ ms) := by
  induction ha with
  | nil => exact hb
  | cons h _ ih =>
    rw [List.append_assoc]
    exact .cons h ih

/-- A line, of which only the line end behind it matters. -/
theorem single {line : List Char} {ls : List Lexeme} (h : ∀ x, Yields line ls ('\n' :: x)) :
    LinesYield [line] ls := by
  have := cons h nil
  rwa [List.append_nil] at this

/-- An empty line. -/
theorem blank : LinesYield [[]] [] := single fun _ => .nil _

/-- Blocks of lines one behind the other. -/
theorem flatMap {α : Type} {f : α → List (List Char)} {g : α → List Lexeme} {as : List α}
    (h : ∀ a ∈ as, LinesYield (f a) (g a)) : LinesYield (as.flatMap f) (as.flatMap g) := by
  induction as with
  | nil => exact nil
  | cons a as ih =>
    exact (h a List.mem_cons_self).append (ih fun b hb => h b (List.mem_cons_of_mem a hb))

/-- Lines moved to the right. -/
theorem indent {lines : List (List Char)} {ls : List Lexeme} (h : LinesYield lines ls) (n : Nat) :
    LinesYield (lines.map (Text.spaces n ++ ·)) ls := by
  induction h with
  | nil => exact nil
  | cons h _ ih => exact .cons (fun x => (Yields.spaces n _).append (h x)) ih

theorem yields {lines : List (List Char)} {ls : List Lexeme} (h : LinesYield lines ls)
    (x : List Char) : Yields (ofLines lines) ls x := by
  induction h with
  | nil => exact .nil x
  | @cons line lines ls ms h _ ih =>
    have hn : Yields ['\n'] [] (ofLines lines ++ x) :=
      .blanks (fun c hc => by rw [List.mem_singleton.1 hc]; rfl) _
    have := (((h (ofLines lines ++ x)).append hn).append ih)
    simpa using this

theorem tokenize_eq {lines : List (List Char)} {ls : List Lexeme} (h : LinesYield lines ls) :
    ∃ ts, tokenize (ofLines lines) = .ok ts ∧ ts.map Token.lexeme = ls := (h.yields []).tokenize_eq

end LinesYield

/-- The tokens of a text are spelled as they are read. -/
theorem spelled_of_tokenizeFrom {p : Position} {cs : List Char} {ts : List Token}
    (h : tokenizeFrom p cs = .ok ts) : ∀ t ∈ ts, t.lexeme.Spelled := by
  fun_induction tokenizeFrom p cs generalizing ts with
  | case1 p => cases h; simp
  | case2 p c r hc ih => exact ih h
  | case3 | case4 => cases h
  | case5 p c r hc l rest hs hlt us hr ih =>
    cases h
    intro t ht
    rcases List.mem_cons.1 ht with rfl | ht
    · exact spelled_of_scan hs
    · exact ih hr t ht

theorem line_le_step (p : Position) (c : Char) : p.line ≤ (p.step c).line := by
  unfold Position.step
  split <;> simp

theorem line_le_after (p : Position) (cs : List Char) : p.line ≤ (p.after cs).line := by
  induction cs generalizing p with
  | nil => exact Nat.le_refl _
  | cons c cs ih => exact Nat.le_trans (line_le_step p c) (ih (p.step c))

/-- No token of a text stands above the place where the text begins. -/
theorem line_le_of_tokenizeFrom {p : Position} {cs : List Char} {ts : List Token}
    (h : tokenizeFrom p cs = .ok ts) : ∀ t ∈ ts, p.line ≤ t.position.line := by
  fun_induction tokenizeFrom p cs generalizing ts with
  | case1 p => cases h; simp
  | case2 p c r hc ih => exact fun t ht => Nat.le_trans (line_le_step p c) (ih h t ht)
  | case3 | case4 => cases h
  | case5 p c r hc l rest hs hlt us hr ih =>
    cases h
    intro t ht
    rcases List.mem_cons.1 ht with rfl | ht
    · exact Nat.le_refl _
    · exact Nat.le_trans (line_le_after p l.spelling) (ih hr t ht)

/-- Behind a line comment there are only blanks up to the end of the line. -/
theorem exists_blanks_of_scanComment {r rest : List Char} {l : Lexeme}
    (h : scanComment r = .ok (l, rest)) (hl : l.isLineComment = true) :
    ∃ bs x, rest = bs ++ x ∧ (∀ b ∈ bs, isBlank b = true) ∧ ∀ d ∈ x.head?, d = '\n' := by
  unfold scanComment at h
  split at h
  · simp only [Except.ok.injEq, Prod.mk.injEq] at h
    obtain ⟨-, rfl⟩ := h
    rename_i r
    generalize '/' :: '/' :: r = cs
    obtain ⟨bs, hb, ht⟩ := trimEnd_append_blanks (cs.takeWhile (· != '\n'))
    refine ⟨bs, cs.dropWhile (· != '\n'), ?_, hb, ?_⟩
    · have hr := List.takeWhile_append_dropWhile (p := (· != '\n')) (l := cs)
      generalize cs.takeWhile (· != '\n') = front at *
      conv_lhs => rw [← hr, ← ht, List.append_assoc]
      rw [ht, List.drop_left]
    · intro d hd
      have := List.head?_dropWhile_not (· != '\n') cs
      rw [hd] at this
      simpa using this
  · split at h
    · cases h
    · cases h
      cases hl
  · cases h

/-- What stands behind a line comment stands on a later line. -/
theorem line_lt_of_scan {c : Char} {r rest : List Char} {l : Lexeme} {p : Position}
    {ts : List Token} (h : scan c r = .ok (l, rest)) (hl : l.isLineComment = true)
    (hr : tokenizeFrom p rest = .ok ts) : ∀ t ∈ ts, p.line < t.position.line := by
  have hc : l.isComment = true := by
    cases l with
    | lineComment => rfl
    | _ => cases hl
  obtain ⟨bs, x, rfl, hb, hx⟩ := exists_blanks_of_scanComment (scanComment_of_scan h hc) hl
  obtain ⟨us, hus, he⟩ := Yields.blanks hb x p
  obtain rfl : us = [] := List.map_eq_nil_iff.1 hus
  have hx' : tokenizeFrom (p.after bs) x = .ok ts := by
    rw [he] at hr
    cases ht : tokenizeFrom (p.after bs) x <;> simp_all [Except.map]
  intro t ht
  cases x with
  | nil =>
    rw [tokenizeFrom_nil] at hx'
    cases hx'
    cases ht
  | cons d x =>
    obtain rfl := hx d rfl
    rw [tokenizeFrom_blank rfl] at hx'
    have hn : (p.after bs).line < ((p.after bs).step '\n').line := Nat.lt_succ_self _
    have := line_le_after p bs
    have := line_le_of_tokenizeFrom hx' t ht
    omega

/-- Nothing follows a line comment on the line where it ends. -/
def ClosesLine (a b : Token) : Prop :=
  a.lexeme.isLineComment = true → a.endLine < b.position.line

theorem isChain_of_tokenizeFrom {p : Position} {cs : List Char} {ts : List Token}
    (h : tokenizeFrom p cs = .ok ts) : ts.IsChain ClosesLine := by
  fun_induction tokenizeFrom p cs generalizing ts with
  | case1 p => cases h; exact .nil
  | case2 p c r hc ih => exact ih h
  | case3 | case4 => cases h
  | case5 p c r hc l rest hs hlt us hr ih =>
    cases h
    exact (ih hr).cons fun t ht hl => line_lt_of_scan hs hl hr t (List.mem_of_mem_head? ht)

end KeyRemap
