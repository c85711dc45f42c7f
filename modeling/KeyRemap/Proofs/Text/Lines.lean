import KeyRemap.Proofs.Token.Lossless

/-!
# Lines and places

A position counts line feeds, and the lines of a text are also ended by a carriage return in front
of a line feed. Up to a character that is no part of a line end, both tell the same: the line of the
position begins with the characters in front of it, and goes on with that character
(`exists_lineText_eq`).
-/
namespace KeyRemap.Text

/-- The text of a line, counted from one. That of a line that a text does not have is empty. -/
def lineText (source : List Char) (number : Nat) : List Char :=
  ((lines source)[number - 1]?).getD []

@[simp] theorem lines_newline (cs : List Char) : lines ('\n' :: cs) = [] :: lines cs := by
  simp [lines]

@[simp] theorem lines_return_newline (cs : List Char) :
    lines ('\r' :: '\n' :: cs) = [] :: lines cs := by
  simp [lines]

theorem lines_cons {c : Char} {cs : List Char} (hc : c ≠ '\n')
    (hr : c = '\r' → cs.head? ≠ some '\n') :
    lines (c :: cs) = (c :: (lines cs).head?.getD []) :: (lines cs).tail := by
  rw [lines.eq_def]
  split
  · rename_i h
    cases h
  · rename_i h
    cases h
    exact absurd rfl hc
  · rename_i h
    cases h
    exact absurd rfl (hr rfl)
  · rename_i h
    cases h
    cases lines cs <;> rfl

/-- The characters behind the last line feed of a text. -/
def lastPiece (cs : List Char) : List Char := (cs.reverse.takeWhile (· != '\n')).reverse

theorem takeWhile_reverse_eq_self {cs : List Char} (h : '\n' ∉ cs) :
    cs.reverse.takeWhile (· != '\n') = cs.reverse := by
  refine List.takeWhile_eq_self_iff.2 fun c hc => ?_
  simpa using fun he : c = '\n' => h (he ▸ List.mem_reverse.1 hc)

theorem lastPiece_eq_self {cs : List Char} (h : '\n' ∉ cs) : lastPiece cs = cs := by
  rw [lastPiece, takeWhile_reverse_eq_self h, List.reverse_reverse]

theorem lastPiece_cons_of_mem {cs : List Char} (h : '\n' ∈ cs) (c : Char) :
    lastPiece (c :: cs) = lastPiece cs := by
  have hstop : ¬ ∀ d ∈ cs.reverse, (d != '\n') = true :=
    fun hall => absurd (hall '\n' (List.mem_reverse.2 h)) (by decide)
  rw [lastPiece, lastPiece, List.reverse_cons, List.takeWhile_append, if_neg]
  intro hlength
  exact hstop (List.takeWhile_eq_self_iff.1 ((List.takeWhile_prefix _).eq_of_length hlength))

theorem lastPiece_newline (cs : List Char) : lastPiece ('\n' :: cs) = lastPiece cs := by
  by_cases h : '\n' ∈ cs
  · exact lastPiece_cons_of_mem h '\n'
  · rw [lastPiece, lastPiece, List.reverse_cons, List.takeWhile_append,
      takeWhile_reverse_eq_self h]
    simp

/-- A line begins with what stands in front of a character that ends no line, and goes on with it. A
text that is at its end has nothing more on its line. -/
theorem exists_lineText_eq (front : List Char) {behind : List Char}
    (h : ∀ c ∈ behind.head?, c ≠ '\n' ∧ c ≠ '\r') :
    ∃ more, lineText (front ++ behind) (1 + front.count '\n') = lastPiece front ++ more ∧
      more.head? = behind.head? := by
  induction front with
  | nil =>
    cases behind with
    | nil => exact ⟨[], rfl, rfl⟩
    | cons c cs =>
      obtain ⟨hn, hr⟩ := h c rfl
      refine ⟨c :: (lines cs).head?.getD [], ?_, rfl⟩
      simp [lineText, lines_cons hn (fun he => absurd he hr), lastPiece]
  | cons c front ih =>
    obtain ⟨more, hline, hmore⟩ := ih
    refine ⟨more, ?_, hmore⟩
    by_cases hn : c = '\n'
    · subst hn
      rw [lastPiece_newline, ← hline]
      simp [lineText]
    by_cases hr : c = '\r' ∧ (front ++ behind).head? = some '\n'
    · obtain ⟨rfl, hhead⟩ := hr
      -- the line feed behind the carriage return is one of the characters in front
      obtain ⟨front, rfl⟩ : ∃ cs, front = '\n' :: cs := by
        cases front with
        | nil => exact absurd rfl (h '\n' hhead).1
        | cons d cs =>
          cases hhead
          exact ⟨cs, rfl⟩
      rw [lastPiece_cons_of_mem (by simp), ← hline]
      simp [lineText]
    · have hcons : lines (c :: (front ++ behind)) = (c :: (lines (front ++ behind)).head?.getD []) ::
          (lines (front ++ behind)).tail := lines_cons hn fun he hhead => hr ⟨he, hhead⟩
      by_cases hm : '\n' ∈ front
      · obtain ⟨n, hcount⟩ := Nat.exists_eq_succ_of_ne_zero (List.count_pos_iff.2 hm).ne'
        rw [lastPiece_cons_of_mem hm, ← hline]
        simp [lineText, hcons, hn, hcount, List.getElem?_tail]
      · have hcount : front.count '\n' = 0 := List.count_eq_zero.2 hm
        rw [lastPiece_eq_self hm] at hline
        rw [lastPiece_eq_self (by simp [hm, Ne.symm hn])]
        simp only [lineText, hcount, Nat.add_zero, Nat.sub_self, ← List.head?_eq_getElem?] at hline
        simp [lineText, hcons, hn, hcount, hline]

end KeyRemap.Text

namespace KeyRemap

open Text

theorem Position.behind_eq (cs : List Char) :
    behind cs = ⟨1 + cs.count '\n', 1 + (lastPiece cs).length⟩ := by
  simp [behind, lastPiece]

end KeyRemap
