import KeyRemap.Token.Scan
import Mathlib.Data.List.DropRight

/-!
# Lexemes and their spellings

A lexeme that was read from a text is read again from its spelling alone, and from its spelling
in front of any text that does not continue it. Main statement: `scan_append`. What a text begins
with is decided by the spelling and one character of what follows, so the tokens of a text can be
found one stretch after another.
-/
namespace KeyRemap

open Text

theorem isNamePart_of_isDigit {c : Char} (h : c.isDigit = true) : isNamePart c = true := by
  simp [isNamePart, Char.isAlphanum, h]

theorem isNamePart_of_isNameStart {c : Char} (h : isNameStart c = true) : isNamePart c = true := by
  simp only [isNameStart, isNamePart, Char.isAlphanum, Bool.or_eq_true] at *
  exact h.imp_left .inl

/-- The characters of names and numbers are no blanks. -/
theorem isBlank_eq_false_of_isNamePart {c : Char} (h : isNamePart c = true) :
    isBlank c = false := by
  change (((decide ('A'.val ≤ c.val ∧ c.val ≤ 'Z'.val) ||
    decide ('a'.val ≤ c.val) && decide (c.val ≤ 'z'.val)) ||
    decide ('0'.val ≤ c.val) && decide (c.val ≤ '9'.val)) || c == '_') = true at h
  simp only [Bool.or_eq_true, Bool.and_eq_true, decide_eq_true_eq, beq_iff_eq,
    UInt32.le_iff_toNat_le] at h
  change ((((65 ≤ c.toNat ∧ c.toNat ≤ 90) ∨ (97 ≤ c.toNat ∧ c.toNat ≤ 122)) ∨
    (48 ≤ c.toNat ∧ c.toNat ≤ 57)) ∨ c = '_') at h
  rcases h with h | rfl
  · have hn : 48 ≤ c.toNat ∧ c.toNat ≤ 122 := by omega
    simp only [isBlank, Bool.or_eq_false_iff, Bool.and_eq_false_iff, decide_eq_false_iff_not,
      beq_eq_false_iff_ne]
    omega
  · rfl

theorem isNamePart_mark (m : Mark) : isNamePart m.char = false := by
  cases m <;> rfl

theorem isBlank_mark (m : Mark) : isBlank m.char = false := by
  cases m <;> rfl

/-- The ways in which a lexeme is read, by its first character. -/
theorem scan_cases {c : Char} {r rest : List Char} {l : Lexeme} (h : scan c r = .ok (l, rest)) :
    (∃ m : Mark, c = m.char ∧ l = .mark m) ∨ (c = '"' ∧ scanString r = .ok (l, rest)) ∨
      (c = '/' ∧ scanComment r = .ok (l, rest)) ∨ (c = '-' ∧ scanNumber true r = .ok (l, rest)) ∨
      (c.isDigit = true ∧ scanNumber false (c :: r) = .ok (l, rest)) ∨
      (isNameStart c = true ∧ ∃ text, l = .name text) := by
  unfold scan at h
  split at h
  · rename_i m hm
    cases h
    exact .inl ⟨m, Mark.ofChar?_eq_some hm, rfl⟩
  refine .inr ?_
  split at h; · exact .inl ⟨‹_›, h⟩
  split at h; · exact .inr (.inl ⟨‹_›, h⟩)
  split at h; · exact .inr (.inr (.inl ⟨‹_›, h⟩))
  split at h; · exact .inr (.inr (.inr (.inl ⟨‹_›, h⟩)))
  split at h
  · cases h
    exact .inr (.inr (.inr (.inr ⟨‹_›, _, rfl⟩)))
  · cases h

/-- No lexeme begins with a blank. -/
theorem isBlank_eq_false_of_scan {c : Char} {r rest : List Char} {l : Lexeme}
    (h : scan c r = .ok (l, rest)) : isBlank c = false := by
  obtain ⟨m, rfl, -⟩ | ⟨rfl, -⟩ | ⟨rfl, -⟩ | ⟨rfl, -⟩ | ⟨hd, -⟩ | ⟨hn, -⟩ := scan_cases h
  · exact isBlank_mark m
  · rfl
  · rfl
  · rfl
  · exact isBlank_eq_false_of_isNamePart (isNamePart_of_isDigit hd)
  · exact isBlank_eq_false_of_isNamePart (isNamePart_of_isNameStart hn)

theorem exists_quoted_of_scanString {r rest : List Char} {l : Lexeme}
    (h : scanString r = .ok (l, rest)) : ∃ value raw, l = .quoted value raw := by
  unfold scanString at h
  split at h <;> cases h
  exact ⟨_, _, rfl⟩

/-- A number is in the range of signed integers. -/
theorem exists_number_of_scanNumber {negative : Bool} {r rest : List Char} {l : Lexeme}
    (h : scanNumber negative r = .ok (l, rest)) :
    ∃ value raw, l = .number value raw ∧ fitsSigned value = true := by
  unfold scanNumber at h
  simp only at h
  split at h
  · cases h
  · generalize (if negative then -(Decimal.value (r.takeWhile Char.isDigit) : Int)
      else Decimal.value (r.takeWhile Char.isDigit)) = value at h
    split at h
    · cases h
      exact ⟨_, _, rfl, ‹_›⟩
    · cases h

theorem isComment_of_scanComment {r rest : List Char} {l : Lexeme}
    (h : scanComment r = .ok (l, rest)) : l.isComment = true := by
  unfold scanComment at h
  split at h
  · cases h
    rfl
  · split at h <;> cases h
    rfl
  · cases h

/-- Comments are read as such. -/
theorem scanComment_of_scan {c : Char} {r rest : List Char} {l : Lexeme}
    (h : scan c r = .ok (l, rest)) (hl : l.isComment = true) : scanComment r = .ok (l, rest) := by
  obtain ⟨m, -, rfl⟩ | ⟨-, h⟩ | ⟨-, h⟩ | ⟨-, h⟩ | ⟨-, h⟩ | ⟨-, text, rfl⟩ := scan_cases h
  · cases hl
  · obtain ⟨value, raw, rfl⟩ := exists_quoted_of_scanString h
    cases hl
  · exact h
  · obtain ⟨value, raw, rfl, -⟩ := exists_number_of_scanNumber h
    cases hl
  · obtain ⟨value, raw, rfl, -⟩ := exists_number_of_scanNumber h
    cases hl
  · cases hl

/-- Every number that is read is in the range of signed integers. -/
theorem fitsSigned_of_scan {c : Char} {r rest : List Char} {i : Int} {raw : String}
    (h : scan c r = .ok (.number i raw, rest)) : fitsSigned i = true := by
  obtain ⟨m, -, hm⟩ | ⟨-, h⟩ | ⟨-, h⟩ | ⟨-, h⟩ | ⟨-, h⟩ | ⟨-, text, ht⟩ := scan_cases h
  · cases hm
  · obtain ⟨value, raw, h⟩ := exists_quoted_of_scanString h
    cases h
  · cases isComment_of_scanComment h
  · obtain ⟨value, raw, h, hf⟩ := exists_number_of_scanNumber h
    cases h
    exact hf
  · obtain ⟨value, raw, h, hf⟩ := exists_number_of_scanNumber h
    cases h
    exact hf
  · cases ht

theorem stringBody_append {cs value raw rest : List Char}
    (h : stringBody cs = .ok (value, raw, rest)) (x : List Char) :
    stringBody (raw ++ x) = .ok (value, raw, x) := by
  fun_induction stringBody cs generalizing value raw rest with
  | case1 | case2 | case4 => simp at h
  | case3 r => simp at h; obtain ⟨rfl, rfl, rfl⟩ := h; rfl
  | case5 c r hc => simp at h
  | case6 c r v hv e he ih => simp at h
  | case7 c r v hv value' raw' rest' hr ih =>
    simp at h
    obtain ⟨rfl, rfl, rfl⟩ := h
    simp [stringBody, hv, ih hr]
  | case8 c r _ _ _ _ e he ih => simp at h
  | case9 c r h₁ h₂ h₃ h₄ value' raw' rest' hr ih =>
    simp at h
    obtain ⟨rfl, rfl, rfl⟩ := h
    have hb : c ≠ '\\' := by
      cases r with
      | nil => exact fun hc => h₃ hc rfl
      | cons d r => exact fun hc => h₄ d r hc rfl
    rw [List.cons_append, stringBody.eq_def]
    split <;> simp_all

theorem blockBody_append {cs raw rest : List Char} (h : blockBody cs = some (raw, rest)) :
    ∀ x, blockBody (raw ++ x) = some (raw, x) := by
  fun_induction blockBody cs generalizing raw rest with
  | case1 => simp at h
  | case2 r => simp at h; obtain ⟨rfl, rfl⟩ := h; exact fun _ => rfl
  | case3 c r hc ih =>
    obtain ⟨⟨raw', rest'⟩, hr, he⟩ := Option.map_eq_some_iff.1 h
    simp at he
    obtain ⟨rfl, rfl⟩ := he
    intro x
    have hs : ∀ t, c = '*' → raw' ++ x = '/' :: t → False := by
      cases hraw : raw' with
      | nil => simpa [hraw, blockBody] using ih hr []
      | cons d raw'' =>
        intro t hc' ht
        cases ht
        exact hc _ hc' (by rw [← raw_append_of_blockBody hr, hraw]; rfl)
    rw [List.cons_append, blockBody.eq_def]
    split
    · simp_all
    · rename_i r' he
      simp only [List.cons.injEq] at he
      exact (hs r' he.1 he.2).elim
    · rename_i he
      cases he
      rw [ih hr x]
      rfl

/-- A block comment is spelled up to its first closing delimiter. -/
theorem exists_body_of_blockBody {cs raw rest : List Char} (h : blockBody cs = some (raw, rest)) :
    ∃ body, raw = body ++ ['*', '/'] ∧ ¬ ['*', '/'] <:+: body := by
  fun_induction blockBody cs generalizing raw rest with
  | case1 => cases h
  | case2 r => cases h; exact ⟨[], rfl, by simp⟩
  | case3 c r hc ih =>
    obtain ⟨⟨raw', rest'⟩, hr, he⟩ := Option.map_eq_some_iff.1 h
    cases he
    obtain ⟨body, rfl, hb⟩ := ih hr
    refine ⟨c :: body, rfl, fun hi => ?_⟩
    rcases List.infix_cons_iff.1 hi with hp | hi
    · obtain ⟨rfl, t, rfl⟩ := List.cons_prefix_cons.1 hp
      exact hc _ rfl (raw_append_of_blockBody hr).symm
    · exact hb hi

theorem takeWhile_append_stop {p : Char → Bool} {s x : List Char} (hs : ∀ c ∈ s, p c = true)
    (hx : ∀ c ∈ x.head?, p c = false) : (s ++ x).takeWhile p = s := by
  rw [List.takeWhile_append_of_pos hs]
  cases x with
  | nil => simp
  | cons c x => simp [hx c rfl]

theorem dropWhile_append_stop {p : Char → Bool} {s x : List Char} (hs : ∀ c ∈ s, p c = true)
    (hx : ∀ c ∈ x.head?, p c = false) : (s ++ x).dropWhile p = x := by
  rw [List.dropWhile_append_of_pos hs]
  cases x with
  | nil => rfl
  | cons c x => simp [hx c rfl]

theorem trimEnd_cons {c : Char} (hc : isBlank c = false) (cs : List Char) :
    trimEnd (c :: cs) = c :: trimEnd cs := by
  unfold trimEnd
  rw [List.reverse_cons, List.dropWhile_append]
  split
  · rename_i h
    rw [List.isEmpty_iff.1 h]
    simp [hc]
  · simp

theorem trimEnd_trimEnd (cs : List Char) : trimEnd (trimEnd cs) = trimEnd cs := by
  simp [trimEnd, List.dropWhile_idempotent]

theorem mem_of_mem_trimEnd {c : Char} {cs : List Char} (h : c ∈ trimEnd cs) : c ∈ cs := by
  obtain ⟨bs, -, hs⟩ := trimEnd_append_blanks cs
  exact hs ▸ List.mem_append_left bs h

theorem isBlank_of_mem_getLast?_trimEnd {cs : List Char} {c : Char}
    (h : c ∈ (trimEnd cs).getLast?) : isBlank c = false := by
  rw [trimEnd, List.getLast?_reverse] at h
  have := List.head?_dropWhile_not isBlank cs.reverse
  rw [h] at this
  simpa using this

namespace Lexeme

/-- Whether a text can stand behind the lexeme without continuing it. -/
def EndsBefore : Lexeme → List Char → Prop
  | .name _, x | .number _ _, x => ∀ c ∈ x.head?, isNamePart c = false
  | .lineComment _, x => ∀ c ∈ x.head?, c = '\n'
  | _, _ => True

@[simp] theorem endsBefore_nil (l : Lexeme) : l.EndsBefore [] := by
  cases l <;> simp [EndsBefore]

/-- A line end continues no lexeme. -/
@[simp] theorem endsBefore_newline (l : Lexeme) (x : List Char) : l.EndsBefore ('\n' :: x) := by
  cases l <;> simp [EndsBefore] <;> rfl

end Lexeme

theorem scanString_append {r rest s : List Char} {l : Lexeme} (h : scanString r = .ok (l, rest))
    (hs : l.spelling = '"' :: s) (x : List Char) : scanString (s ++ x) = .ok (l, x) := by
  unfold scanString at h
  split at h
  · cases h
  · cases h
  · rename_i value raw rest' hb
    cases h
    obtain rfl : raw = s := by simpa [Lexeme.spelling] using hs
    rw [scanString, stringBody_append hb x]

theorem scanComment_append {r rest s x : List Char} {l : Lexeme}
    (h : scanComment r = .ok (l, rest)) (hs : l.spelling = '/' :: s) (hx : l.EndsBefore x) :
    scanComment (s ++ x) = .ok (l, x) := by
  unfold scanComment at h
  split at h
  · rename_i r
    simp only [Except.ok.injEq, Prod.mk.injEq] at h
    obtain ⟨rfl, -⟩ := h
    simp only [Lexeme.spelling, String.toList_ofList] at hs
    have hn : ∀ c ∈ '/' :: s, (c != '\n') = true := by
      intro c hc
      rw [← hs] at hc
      exact List.all_eq_true.1 List.all_takeWhile c (mem_of_mem_trimEnd hc)
    have ht : trimEnd ('/' :: s) = '/' :: s := by rw [← hs, trimEnd_trimEnd]
    -- the second slash is no blank, so it survives the trimming
    obtain ⟨t, rfl⟩ : ∃ t, s = '/' :: t := by
      simp only [List.takeWhile_cons, bne_iff_ne, ne_eq, Char.reduceEq, not_false_eq_true,
        if_true] at hs
      rw [trimEnd_cons rfl, trimEnd_cons rfl, List.cons.injEq] at hs
      exact ⟨_, hs.2.symm⟩
    have hw : ('/' :: '/' :: t ++ x).takeWhile (· != '\n') = '/' :: '/' :: t :=
      takeWhile_append_stop hn fun c hc => by simp [hx c hc]
    rw [List.cons_append, scanComment]
    simp only [← List.cons_append, hw, ht, hs, List.drop_left]
  · split at h
    · cases h
    · rename_i raw rest' hb
      cases h
      obtain rfl : '*' :: raw = s := by simpa [Lexeme.spelling] using hs
      rw [List.cons_append, scanComment, blockBody_append hb x]
  · cases h

theorem scanNumber_append {negative : Bool} {r rest s x : List Char} {l : Lexeme}
    (h : scanNumber negative r = .ok (l, rest))
    (hs : l.spelling = (if negative then ['-'] else []) ++ s) (hx : l.EndsBefore x) :
    scanNumber negative (s ++ x) = .ok (l, x) := by
  unfold scanNumber at h
  simp only at h
  split at h
  · cases h
  · rename_i hd
    generalize hw : (if negative then -(Decimal.value (r.takeWhile Char.isDigit) : Int)
      else Decimal.value (r.takeWhile Char.isDigit)) = value at h
    split at h
    · rename_i hv
      cases h
      obtain rfl : r.takeWhile Char.isDigit = s := by simpa [Lexeme.spelling] using hs
      have hall : ∀ c ∈ r.takeWhile Char.isDigit, c.isDigit = true :=
        fun c hc => List.all_eq_true.1 List.all_takeWhile c hc
      have hstop : ∀ c ∈ x.head?, c.isDigit = false := by
        intro c hc
        cases hn : c.isDigit with
        | false => rfl
        | true => simpa [hx c hc] using isNamePart_of_isDigit hn
      unfold scanNumber
      simp only [takeWhile_append_stop hall hstop, dropWhile_append_stop hall hstop, hd, hw, hv,
        Bool.false_eq_true, if_true, if_false]
    · cases h

/-- What was read from a text is read from its spelling in front of any text that does not
continue it. -/
theorem scan_append {c : Char} {r rest s x : List Char} {l : Lexeme}
    (h : scan c r = .ok (l, rest)) (hs : l.spelling = c :: s) (hx : l.EndsBefore x) :
    scan c (s ++ x) = .ok (l, x) := by
  unfold scan at h
  split at h
  · rename_i m hm
    cases h
    obtain rfl : s = [] := by simpa [Lexeme.spelling, Mark.ofChar?_eq_some hm] using hs.symm
    simp [scan, hm]
  rename_i hm
  rw [scan, hm]
  simp only
  split at h
  · rename_i hc
    subst hc
    exact scanString_append h hs x
  rename_i hq
  rw [if_neg hq]
  split at h
  · rename_i hc
    subst hc
    exact scanComment_append h hs hx
  rename_i hslash
  rw [if_neg hslash]
  split at h
  · rename_i hc
    subst hc
    exact scanNumber_append h hs hx
  rename_i hminus
  rw [if_neg hminus]
  split at h
  · rename_i hd
    rw [if_pos hd]
    exact scanNumber_append (s := c :: s) h hs hx
  rename_i hd
  rw [if_neg hd]
  split at h
  · rename_i hn
    cases h
    obtain rfl : r.takeWhile isNamePart = s := by simpa [Lexeme.spelling] using hs
    have hall : ∀ d ∈ r.takeWhile isNamePart, isNamePart d = true :=
      fun d hd => List.all_eq_true.1 List.all_takeWhile d hd
    rw [if_pos hn, takeWhile_append_stop hall hx, dropWhile_append_stop hall hx]
  · cases h

end KeyRemap
