import KeyRemap.Json
import KeyRemap.Word
import KeyRemap.Text.Decimal
import KeyRemap.Text.Magnitude

/-!
# Reading JSON

A text is first cut into words: marks, scalars and strings. The words then drive a stack of open
arrays and objects, so that reading is one pass over them. Parts that keep to the grammar and stand
for nothing become flawed values, arrays and objects inside 127 others among them.
-/
namespace KeyRemap.Json

/-- A word of a JSON text. -/
inductive Word where
  | openArray | closeArray | openObject | closeObject | comma | colon
  /-- A string; there is no value if it has half a surrogate pair. -/
  | text (value : Option String)
  | scalar (j : Json)

/-- The value of a hexadecimal digit. -/
def hexValue? (c : Char) : Option Nat :=
  let n := c.toNat
  if 48 ≤ n ∧ n ≤ 57 then some (n - 48)
  else if 97 ≤ n ∧ n ≤ 102 then some (n - 87)
  else if 65 ≤ n ∧ n ≤ 70 then some (n - 55)
  else none

/-- The number that four hexadecimal digits write. -/
def hexValue4? (a b c d : Char) : Option Nat := do
  return (((← hexValue? a) * 16 + (← hexValue? b)) * 16 + (← hexValue? c)) * 16 + (← hexValue? d)

/-- The character for a letter behind a backslash. -/
def unescape? : Char → Option Char
  | '"' => some '"'
  | '\\' => some '\\'
  | '/' => some '/'
  | 'b' => some '\x08'
  | 'f' => some '\x0c'
  | 'n' => some '\n'
  | 'r' => some '\r'
  | 't' => some '\t'
  | _ => none

/-- Reads a string behind its opening quote: the numbers of its characters, and the rest. An escape
may give the number of half a surrogate pair. -/
def stringBody : List Char → Option (List Nat × List Char)
  | [] => none
  | '"' :: r => some ([], r)
  | '\\' :: 'u' :: a :: b :: c :: d :: r => do
    let n ← hexValue4? a b c d
    let (numbers, rest) ← stringBody r
    some (n :: numbers, rest)
  | '\\' :: c :: r => do
    let v ← unescape? c
    let (numbers, rest) ← stringBody r
    some (v.toNat :: numbers, rest)
  | c :: r => do
    if c.toNat < 32 || c == '\\' then none
    else
      let (numbers, rest) ← stringBody r
      some (c.toNat :: numbers, rest)

/-- The characters with the given numbers. The two halves of a surrogate pair stand for one
character beyond the basic plane; half a pair stands for none. -/
def characters? : List Nat → Option (List Char)
  | [] => some []
  | n :: ns =>
    if 0xD800 ≤ n ∧ n < 0xDC00 then
      match ns with
      | [] => none
      | m :: ns =>
        if 0xDC00 ≤ m ∧ m < 0xE000 then
          (characters? ns).map (Char.ofNat (0x10000 + (n - 0xD800) * 0x400 + (m - 0xDC00)) :: ·)
        else none
    else if 0xDC00 ≤ n ∧ n < 0xE000 then none
    else (characters? ns).map (Char.ofNat n :: ·)

/-- Splits a text behind the digits it begins with. -/
def spanDigits (cs : List Char) : List Char × List Char :=
  (cs.takeWhile Char.isDigit, cs.dropWhile Char.isDigit)

/-- Reads the fraction of a number, if it has one. -/
def fraction? (cs : List Char) : Option (List Char × List Char) :=
  match cs with
  | '.' :: r =>
    let (digits, rest) := spanDigits r
    if digits.isEmpty then none else some ('.' :: digits, rest)
  | r => some ([], r)

/-- Reads the exponent of a number, if it has one. -/
def exponent? (cs : List Char) : Option (List Char × List Char) :=
  match cs with
  | e :: r =>
    if e == 'e' || e == 'E' then
      let (sign, r') : List Char × List Char := match r with
        | '+' :: r' => (['+'], r')
        | '-' :: r' => (['-'], r')
        | r' => ([], r')
      let (digits, rest) := spanDigits r'
      if digits.isEmpty then none else some (e :: sign ++ digits, rest)
    else some ([], e :: r)
  | [] => some ([], [])

/-- The power of ten that an exponent stands for. -/
def power : List Char → Int
  | [] => 0
  | _ :: '-' :: digits => -Text.Decimal.value digits
  | _ :: '+' :: digits => Text.Decimal.value digits
  | _ :: digits => Text.Decimal.value digits

/-- Appends digits to a number until it would leave the range of 64 bits. The digits that are left
are the rest. -/
def gather (n : Nat) : List Char → Nat × List Char
  | [] => (n, [])
  | c :: cs =>
    let m := Text.Decimal.push n c
    if fitsUnsigned m then gather m cs else (n, c :: cs)

/-- Whether a number is too large. Of its digits as many count as fit into 64 bits; those of the
whole part that do not fit raise the exponent. -/
def isTooLarge (whole fraction exponent : List Char) : Bool :=
  let digits := fraction.drop 1
  let (n, unread) := gather 0 whole
  let (m, unused) := gather n digits
  let places : Int := digits.length - unused.length
  Text.Magnitude.exceedsByFactors m (power exponent + unread.length - places)

/-- Reads a number without its sign. -/
def number? (negative : Bool) (cs : List Char) : Option (Json × List Char) := do
  let (whole, r) ← match cs with
    | '0' :: r => some (['0'], r)
    | cs =>
      let (digits, rest) := spanDigits cs
      if digits.isEmpty then none else some (digits, rest)
  let (fraction, r) ← fraction? r
  let (exponent, r) ← exponent? r
  let magnitude : Int := Text.Decimal.value whole
  let value := if negative then -magnitude else magnitude
  let isWhole := fraction.isEmpty && exponent.isEmpty && !(negative && magnitude == 0) &&
    (if negative then fitsSigned value else fitsUnsigned value)
  if isWhole then some (.int value, r)
  else if isTooLarge whole fraction exponent then some (.flawed, r)
  else
    let sign : List Char := if negative then ['-'] else []
    some (.decimal (String.ofList (sign ++ whole ++ fraction ++ exponent)), r)

/-- Reads the word that the text `c :: r` begins with, which is not blank. -/
def word? (c : Char) (r : List Char) : Option (Word × List Char) :=
  match c, r with
  | '[', r => some (.openArray, r)
  | ']', r => some (.closeArray, r)
  | '\x7b', r => some (.openObject, r)
  | '\x7d', r => some (.closeObject, r)
  | ',', r => some (.comma, r)
  | ':', r => some (.colon, r)
  | '"', r => (stringBody r).map fun (numbers, rest) =>
    (.text ((characters? numbers).map String.ofList), rest)
  | 't', 'r' :: 'u' :: 'e' :: r => some (.scalar (.bool true), r)
  | 'f', 'a' :: 'l' :: 's' :: 'e' :: r => some (.scalar (.bool false), r)
  | 'n', 'u' :: 'l' :: 'l' :: r => some (.scalar .null, r)
  | '-', r => (number? true r).map fun (j, rest) => (.scalar j, rest)
  | c, r => (number? false (c :: r)).map fun (j, rest) => (.scalar j, rest)

/-- The words of a text. Each has at least one character, so the length of the text bounds their
number; `fuel` is that length. -/
def wordsWithin : (fuel : Nat) → List Char → Option (List Word)
  | _, [] => some []
  | 0, _ :: _ => none
  | fuel + 1, c :: r =>
    if c == ' ' || c == '\n' || c == '\t' || c == '\r' then wordsWithin fuel r
    else do
      let (w, rest) ← word? c r
      let ws ← wordsWithin fuel rest
      some (w :: ws)

def words? (cs : List Char) : Option (List Word) := wordsWithin cs.length cs

/-- The name of a field; there is none if it has half a surrogate pair. -/
abbrev Name := Option String

/-- An open array, or an open object with the name of the field whose value is being read. Members
already read are in reverse. -/
inductive Frame where
  | array (done : List Json)
  | object (done : List (Name × Json)) (name : Name)

/-- What the next word has to be. -/
inductive Phase where
  | value
  /-- A value or the end of the array just opened. -/
  | firstItem
  /-- The name of a field; the end of the object too if it is just opened. -/
  | name (done : List (Name × Json)) (first : Bool)
  | colon (done : List (Name × Json)) (name : Name)
  /-- A value is complete. -/
  | complete (value : Json)

/-- The open arrays and objects, their number, and what is to come. -/
structure Machine where
  stack : List Frame := []
  depth : Nat := 0
  phase : Phase := .value

/-- The object with the fields read, in reverse. -/
def objectOf (done : List (Name × Json)) : Json :=
  match done.reverse.mapM fun (name, j) => name.map (·, j) with
  | some fields => .object fields
  | none => .flawed

/-- Begins a value. -/
def Machine.begin? (m : Machine) : Word → Option Machine
  | .scalar j => some { m with phase := .complete j }
  | .text (some value) => some { m with phase := .complete (.string value) }
  | .text none => some { m with phase := .complete .flawed }
  | .openArray => some ⟨.array [] :: m.stack, m.depth + 1, .firstItem⟩
  | .openObject => some ⟨m.stack, m.depth + 1, .name [] true⟩
  | _ => none

/-- Completes an array or object. -/
def Machine.close (m : Machine) (stack : List Frame) (j : Json) : Machine :=
  ⟨stack, m.depth - 1, .complete (if m.depth ≤ 127 then j else .flawed)⟩

/-- Takes a word. -/
def Machine.step? (m : Machine) (w : Word) : Option Machine :=
  match m.phase, w with
  | .value, w => m.begin? w
  | .firstItem, .closeArray => some (m.close m.stack.tail (.array []))
  | .firstItem, w => m.begin? w
  | .name done true, .closeObject => some (m.close m.stack (objectOf done))
  | .name done _, .text name => some { m with phase := .colon done name }
  | .colon done name, .colon => some ⟨.object done name :: m.stack, m.depth, .value⟩
  | .complete j, w =>
    match m.stack, w with
    | .array done :: stack, .comma => some ⟨.array (j :: done) :: stack, m.depth, .value⟩
    | .array done :: stack, .closeArray => some (m.close stack (.array (j :: done).reverse))
    | .object done name :: stack, .comma =>
      some ⟨stack, m.depth, .name ((name, j) :: done) false⟩
    | .object done name :: stack, .closeObject =>
      some (m.close stack (objectOf ((name, j) :: done)))
    | _, _ => none
  | _, _ => none

/-- The value of a text. Parts of it may be flawed. -/
def parse? (cs : List Char) : Option Json := do
  let m ← (← words? cs).foldlM Machine.step? {}
  match m.stack, m.phase with
  | [], .complete j => some j
  | _, _ => none

end KeyRemap.Json
