import KeyRemap.Text.Decimal
import KeyRemap.Text.Magnitude
import KeyRemap.Toml

/-!
# TOML atoms

The values that are written without quotes or brackets: truth values, numbers, dates and times.
Underscores may stand between the digits of a number. Whether an atom is a number is a matter of its
first characters; one that turns out to have no value is flawed.
-/
namespace KeyRemap.Toml

/-- A character that may be part of an atom: all but those that stand between values. -/
def isAtomChar (c : Char) : Bool :=
  !" \t\r\n#=,[]\x7b\x7d".toList.contains c

/-- The value of a digit, up to that of `f`. -/
def digitValue? (c : Char) : Option Nat :=
  if c.isDigit then some (c.toNat - 48)
  else if 'a' ≤ c ∧ c ≤ 'f' then some (c.toNat - 87)
  else if 'A' ≤ c ∧ c ≤ 'F' then some (c.toNat - 55)
  else none

/-- The value of digits in a base. -/
def valueIn (base : Nat) (cs : List Char) : Nat :=
  cs.foldl (fun n c => match digitValue? c with
    | some d => base * n + d
    | none => n) 0

/-- The digits of a base. -/
def isDigitOf (base : Nat) (c : Char) : Bool :=
  match digitValue? c with
  | some d => d < base
  | none => false

/-- The pieces of a number between its underscores. The first one is that read so far, in
reverse. -/
def pieces (done : List Char) : List Char → List (List Char)
  | [] => [done.reverse]
  | c :: cs => if c = '_' then done.reverse :: pieces [] cs else pieces (c :: done) cs

/-- Whether the pieces of a number behind an underscore are not empty and begin with a digit, and
all but the last of them end with one. -/
def meetDigits (isDigit : Char → Bool) : List (List Char) → Bool
  | [] => true
  | [piece] => piece.head?.any isDigit
  | piece :: pieces =>
    piece.head?.any isDigit && piece.getLast?.any isDigit && meetDigits isDigit pieces

/-- Whether underscores stand between digits. A sign may be a piece of its own in front. -/
def isSeparated (isDigit : Char → Bool) (cs : List Char) : Bool :=
  match pieces [] cs with
  | [] | [_] => true
  | first :: more =>
    !first.isEmpty && (first.length == 1 || first.getLast?.any isDigit) && meetDigits isDigit more

/-- An atom's sign, and what follows it. -/
def splitSign : List Char → List Char × List Char
  | '-' :: cs => (['-'], cs)
  | '+' :: cs => (['+'], cs)
  | cs => ([], cs)

/-- The value with a sign in front. -/
def signed (sign : List Char) (n : Nat) : Int := if sign = ['-'] then -n else n

/-- An integer of 128 bits, with a sign or without. -/
def integer (value : Int) : Toml :=
  if -0x80000000000000000000000000000000 ≤ value ∧ value ≤ 0xffffffffffffffffffffffffffffffff
  then .int value else .flawed

/-- The integer that digits of a base write. -/
def based? (base : Nat) (cs : List Char) : Option Toml :=
  let digits := cs.filter (· != '_')
  if digits.all (isDigitOf base) && isSeparated (isDigitOf base) cs then
    some (if digits.isEmpty then .flawed else integer (valueIn base digits))
  else none

/-- The integer that an atom writes in base ten, behind a sign. The atom is known to begin with a
digit, or with an underscore that a digit follows. -/
def decimal? (sign cs : List Char) : Option Toml :=
  let digits := cs.filter (· != '_')
  if isSeparated (isDigitOf 16) (sign ++ cs) && (cs.length == 1 || cs.head? != some '0') then
    some (if digits.all Char.isDigit then integer (signed sign (Text.Decimal.value digits))
      else .flawed)
  else none

/-- The digits and underscores that characters begin with. -/
def spanDigits (cs : List Char) : List Char × List Char :=
  (cs.takeWhile fun c => c.isDigit || c == '_', cs.dropWhile fun c => c.isDigit || c == '_')

/-- Reads the fraction of a number, if it has one: its digits, and the rest. -/
def fraction? : List Char → Option (List Char × List Char)
  | '.' :: cs =>
    let (digits, rest) := spanDigits cs
    if digits.any Char.isDigit then some (digits.filter (· != '_'), rest) else none
  | cs => some ([], cs)

/-- The power of ten that the exponent of a number stands for, if it has one. -/
def exponent? : List Char → Option Int
  | [] => some 0
  | c :: cs =>
    let (sign, cs) := splitSign cs
    let digits := cs.filter (· != '_')
    if (c == 'e' || c == 'E') && !digits.isEmpty && digits.all Char.isDigit then
      some (signed sign (Text.Decimal.value digits))
    else none

/-- The number with a fraction or an exponent that an atom writes, behind a sign. -/
def float? (sign cs : List Char) : Option Toml := do
  let (whole, rest) := spanDigits cs
  let digits := whole.filter (· != '_')
  let (fraction, rest) ← fraction? rest
  let exponent ← exponent? rest
  if digits.isEmpty || (whole.head? == some '0' && digits.length != 1) ||
      !isSeparated Char.isDigit (sign ++ cs) then none
  else if Text.Magnitude.exceeds (Text.Decimal.value (digits ++ fraction))
      (exponent - fraction.length) then some .flawed
  else some .number

/-- The number that exactly `n` digits write, and what follows them. -/
def fixed? (n : Nat) (cs : List Char) : Option (Nat × List Char) :=
  if (cs.take n).length = n ∧ (cs.take n).all Char.isDigit then
    some (Text.Decimal.value (cs.take n), cs.drop n)
  else none

def isLeapYear (year : Nat) : Bool := year % 4 == 0 && (year % 100 != 0 || year % 400 == 0)

/-- The number of days of a month. -/
def daysIn (year month : Nat) : Nat :=
  if month = 2 then if isLeapYear year then 29 else 28
  else if month = 4 ∨ month = 6 ∨ month = 9 ∨ month = 11 then 30
  else 31

/-- What follows the date that characters begin with. -/
def afterDate? (cs : List Char) : Option (List Char) := do
  let (year, cs) ← fixed? 4 cs
  match cs with
  | '-' :: cs =>
    let (month, cs) ← fixed? 2 cs
    match cs with
    | '-' :: cs =>
      let (day, cs) ← fixed? 2 cs
      if 1 ≤ month ∧ month ≤ 12 ∧ 1 ≤ day ∧ day ≤ daysIn year month then some cs else none
    | _ => none
  | _ => none

/-- What follows the fraction of a second, if there is one. -/
def afterFraction? : List Char → Option (List Char)
  | '.' :: c :: cs => if c.isDigit then some (cs.dropWhile Char.isDigit) else none
  | '.' :: [] => none
  | cs => some cs

/-- What follows the time that characters begin with. The seconds may be missing. -/
def afterTime? (cs : List Char) : Option (List Char) := do
  let (hour, cs) ← fixed? 2 cs
  match cs with
  | ':' :: cs =>
    let (minute, cs) ← fixed? 2 cs
    if 23 < hour ∨ 59 < minute then none
    else
      match cs with
      | ':' :: cs =>
        let (second, cs) ← fixed? 2 cs
        if 60 < second then none else afterFraction? cs
      | cs => some cs
  | _ => none

/-- Whether characters are the offset of a time, if it has one. -/
def isOffset : List Char → Bool
  | [] | ['Z'] | ['z'] => true
  | c :: cs => (c == '+' || c == '-') && cs.length == 5 && afterTime? cs == some []

/-- Whether an atom is a date, a time, or both. -/
def isDateOrTime (cs : List Char) : Bool :=
  match afterDate? cs with
  | some [] => true
  | some (c :: cs) =>
    (c == 'T' || c == 't' || c == ' ') && (match afterTime? cs with
      | some cs => isOffset cs
      | none => false)
  | none => afterTime? cs == some []

/-- The number, date or time that an atom writes, behind a sign. What follows its first digits tells
which of them it is. -/
def numeral? (sign cs : List Char) : Option Toml :=
  let rest := cs.dropWhile Char.isDigit
  match rest.head? with
  | some '-' | some ':' => if isDateOrTime (sign ++ cs) then some .moment else none
  | next =>
    if rest.contains ' ' then none
    else if rest.any fun c => c == '.' || c == 'e' || c == 'E' then float? sign cs
    else if cs.isEmpty || next.any (· != '_') then none
    else decimal? sign cs

/-- The value of an atom. -/
def atom? (cs : List Char) : Option Toml :=
  match splitSign cs with
  | ([], ['t', 'r', 'u', 'e']) => some (.bool true)
  | ([], ['f', 'a', 'l', 's', 'e']) => some (.bool false)
  | (_, ['i', 'n', 'f']) | (_, ['n', 'a', 'n']) => some .number
  | ([], '0' :: 'x' :: digits) => based? 16 digits
  | ([], '0' :: 'o' :: digits) => based? 8 digits
  | ([], '0' :: 'b' :: digits) => based? 2 digits
  | (sign, cs) => numeral? sign cs

/-- Splits a text behind the atom it begins with. A date may have its time behind a space. -/
def spanAtom (cs : List Char) : List Char × List Char :=
  let atom := cs.takeWhile isAtomChar
  match cs.dropWhile isAtomChar with
  | ' ' :: a :: b :: ':' :: rest =>
    if afterDate? atom == some [] && a.isDigit && b.isDigit then
      (atom ++ ' ' :: a :: b :: ':' :: rest.takeWhile isAtomChar, rest.dropWhile isAtomChar)
    else (atom, ' ' :: a :: b :: ':' :: rest)
  | rest => (atom, rest)

end KeyRemap.Toml
