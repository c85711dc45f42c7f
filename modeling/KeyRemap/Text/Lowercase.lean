import KeyRemap.Text.CaseTable

/-!
# Lowercase

The full lowercase mapping of Unicode. One character depends on what stands around it: a capital
sigma at the end of a word has a form of its own. It is at the end of a word when the last
character before it that counts is cased and the first one after it that counts is not;
case-ignorable characters do not count.
-/
namespace KeyRemap.Text

def inRanges (ranges : List (Nat × Nat)) (n : Nat) : Bool :=
  ranges.any fun range => range.1 ≤ n && n ≤ range.2

def isCased (c : Char) : Bool := inRanges casedRanges c.toNat

def isCaseIgnorable (c : Char) : Bool := inRanges ignorableRanges c.toNat

/-- The lowercase of a character on its own. Only a capital I with a dot has two characters. -/
def lowerChar (c : Char) : List Char :=
  let n := c.toNat
  if n < 128 then [c.toLower]
  else if n == 0x130 then ['i', Char.ofNat 0x307]
  else
    match caseRuns.find? fun run => run.first ≤ n && n ≤ run.last && (n - run.first) % run.step == 0 with
    | some run => [Char.ofNat ((n : Int) + run.shift).toNat]
    | none => [c]

/-- Whether a word goes on: the first character that counts is cased. -/
def startsCased (cs : List Char) : Bool :=
  match cs.dropWhile isCaseIgnorable with
  | [] => false
  | c :: _ => isCased c

/-- The lowercase of a text that follows a cased character that counts, or does not. -/
def lowercaseFrom (afterCased : Bool) : List Char → List Char
  | [] => []
  | c :: r =>
    let here :=
      if c == 'Σ' then [if afterCased && !startsCased r then 'ς' else 'σ'] else lowerChar c
    here ++ lowercaseFrom (if isCaseIgnorable c then afterCased else isCased c) r

/-- The lowercase of a text. -/
def lowercase (cs : List Char) : List Char := lowercaseFrom false cs

end KeyRemap.Text
