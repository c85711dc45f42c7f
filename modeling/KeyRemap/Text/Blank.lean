/-!
# Blank characters

The twenty-five characters with the Unicode property White_Space. They separate the tokens of a
script, and they are what trimming removes.
-/
namespace KeyRemap.Text

/-- Membership in White_Space. -/
def isBlank (c : Char) : Bool :=
  let n := c.toNat
  (9 ≤ n && n ≤ 13) || n == 32 || n == 0x85 || n == 0xA0 || n == 0x1680 ||
    (0x2000 ≤ n && n ≤ 0x200A) || n == 0x2028 || n == 0x2029 || n == 0x202F || n == 0x205F ||
    n == 0x3000

/-- The text without the blanks it begins with. -/
def trimStart (cs : List Char) : List Char := cs.dropWhile isBlank

/-- The text without the blanks it ends with. -/
def trimEnd (cs : List Char) : List Char := (cs.reverse.dropWhile isBlank).reverse

/-- The text without the blanks at either end. -/
def trim (cs : List Char) : List Char := trimEnd (trimStart cs)

/-- A run of spaces. -/
def spaces (n : Nat) : List Char := List.replicate n ' '

@[simp] theorem trimEnd_nil : trimEnd [] = [] := rfl

/-- What trimming removes is a run of blanks. -/
theorem trimEnd_append_blanks (cs : List Char) :
    ∃ bs, (∀ c ∈ bs, isBlank c = true) ∧ trimEnd cs ++ bs = cs := by
  refine ⟨(cs.reverse.takeWhile isBlank).reverse, ?_, ?_⟩
  · intro c hc
    exact List.all_eq_true.1 List.all_takeWhile c (List.mem_reverse.1 hc)
  · rw [trimEnd, ← List.reverse_append, List.takeWhile_append_dropWhile, List.reverse_reverse]

/-- A text that begins with a character that is not blank does not vanish. -/
theorem trimEnd_cons_ne_nil {c : Char} {cs : List Char} (h : isBlank c = false) :
    trimEnd (c :: cs) ≠ [] := by
  intro he
  obtain ⟨bs, hb, hs⟩ := trimEnd_append_blanks (c :: cs)
  rw [he, List.nil_append] at hs
  simpa [h] using hb c (hs ▸ List.mem_cons_self)

/-- A text that ends in a character that is not blank loses nothing. -/
theorem trimEnd_append_singleton {cs : List Char} {c : Char} (h : isBlank c = false) :
    trimEnd (cs ++ [c]) = cs ++ [c] := by
  simp [trimEnd, h]

end KeyRemap.Text
