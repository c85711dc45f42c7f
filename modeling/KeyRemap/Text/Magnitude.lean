/-!
# Magnitudes

Numbers with a fraction or an exponent are kept in 64 bits, of which 53 hold the leading binary
digits; those from two to the power of 1024 on are too large. A numeral is told by its digits,
taken as a whole number, and the power of ten that they are multiplied by.
-/
namespace KeyRemap.Text.Magnitude

/-- The number with 53 binary digits, and zeros behind them, that is nearest to a number. Of two
that are equally near, it is the one whose last digit is zero. -/
def nearest (n : Nat) : Nat :=
  let dropped := n.log2 + 1 - 53
  let kept := n >>> dropped
  let rest := n - kept <<< dropped
  let half := (1 <<< dropped) / 2
  let up := 0 < dropped && (half < rest || (half == rest && kept % 2 == 1))
  (if up then kept + 1 else kept) <<< dropped

/-- Whether a number has more than 1024 binary digits. -/
def isWide (n : Nat) : Bool := 1024 ≤ n.log2

/-- Whether a product is too large, if both factors are brought to 53 binary digits before and the
product afterwards. Powers of ten beyond the 308th are too large themselves. -/
def exceedsByFactors (digits : Nat) (exponent : Int) : Bool :=
  digits != 0 && (308 < exponent || (0 ≤ exponent &&
    isWide (nearest (nearest digits * nearest (Nat.pow 10 exponent.toNat)))))

/-- The least number that is nearer to two to the power of 1024 than to any smaller number with 53
binary digits, or as near. -/
def bound : Nat := (1 <<< 54 - 1) <<< 970

/-- The number of decimal digits. -/
def decimals (n : Nat) : Nat := (Nat.toDigits 10 n).length

/-- Whether a product is too large, if it is exact. The number of its decimal digits settles all
but the numbers near the bound. -/
def exceeds (digits : Nat) (exponent : Int) : Bool :=
  let size := decimals digits + exponent
  if digits = 0 ∨ size < 309 then false
  else if 310 < size then true
  else if 0 ≤ exponent then bound ≤ digits * Nat.pow 10 exponent.toNat
  else bound * Nat.pow 10 (-exponent).toNat ≤ digits

end KeyRemap.Text.Magnitude
