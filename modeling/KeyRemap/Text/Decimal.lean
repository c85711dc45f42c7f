/-!
# Decimal numerals

The digits of a natural number, most significant first and without leading zeros, and the number
that a run of digits denotes. Main statement: reading the digits of a number gives the number.
-/
namespace KeyRemap.Text.Decimal

/-- The digit for a value below ten. -/
def digit (d : Nat) : Char := Char.ofNat (48 + d)

/-- The digits of a number. -/
def digits (n : Nat) : List Char :=
  if n < 10 then [digit n] else digits (n / 10) ++ [digit (n % 10)]

/-- The numeral of an integer, with a minus sign in front when it is negative. -/
def ofInt : Int → List Char
  | .ofNat n => digits n
  | .negSucc n => '-' :: digits (n + 1)

/-- Appends a digit to the number read so far. -/
def push (n : Nat) (c : Char) : Nat := 10 * n + (c.toNat - 48)

/-- The number that a run of digits denotes. -/
def value (cs : List Char) : Nat := cs.foldl push 0

@[simp] theorem value_append_singleton (cs : List Char) (c : Char) :
    value (cs ++ [c]) = push (value cs) c := by
  simp [value]

theorem toNat_digit {d : Nat} (h : d < 10) : (digit d).toNat = 48 + d := by
  match d, h with
  | 0, _ | 1, _ | 2, _ | 3, _ | 4, _ | 5, _ | 6, _ | 7, _ | 8, _ | 9, _ => rfl

theorem isDigit_digit {d : Nat} (h : d < 10) : (digit d).isDigit = true := by
  match d, h with
  | 0, _ | 1, _ | 2, _ | 3, _ | 4, _ | 5, _ | 6, _ | 7, _ | 8, _ | 9, _ => rfl

theorem isDigit_of_mem_digits {n : Nat} {c : Char} (h : c ∈ digits n) : c.isDigit = true := by
  induction n using Nat.strongRecOn with
  | ind n ih =>
    rw [digits] at h
    split at h
    · rename_i hn
      rw [List.mem_singleton.1 h]
      exact isDigit_digit hn
    · rename_i hn
      rcases List.mem_append.1 h with h | h
      · exact ih (n / 10) (by omega) h
      · rw [List.mem_singleton.1 h]
        exact isDigit_digit (Nat.mod_lt _ (by omega))

theorem digits_ne_nil (n : Nat) : digits n ≠ [] := by
  rw [digits]
  split <;> simp

theorem value_digits (n : Nat) : value (digits n) = n := by
  induction n using Nat.strongRecOn with
  | ind n ih =>
    rw [digits]
    split
    · rename_i hn
      simp [value, push, toNat_digit hn]
    · rename_i hn
      rw [value_append_singleton, ih (n / 10) (by omega), push,
        toNat_digit (Nat.mod_lt _ (by omega))]
      omega

end KeyRemap.Text.Decimal
