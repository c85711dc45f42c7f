/-!
# Machine integers

The ranges of signed and unsigned integers of 64 bits. Timeouts are signed, sizes and positions
unsigned.
-/
namespace KeyRemap

/-- The range of signed integers of 64 bits. -/
def fitsSigned (i : Int) : Bool :=
  -9223372036854775808 ≤ i && i ≤ 9223372036854775807

/-- The range of unsigned integers of 64 bits. -/
def fitsUnsigned (i : Int) : Bool := 0 ≤ i && i ≤ 18446744073709551615

end KeyRemap
