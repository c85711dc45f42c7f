/-!
# Regular expressions

As much of regular expressions as patterns are turned into: characters, a dot for any character but
a line feed, a dot with a star for any run of such characters, and the two ends of the text. A
character that would mean something else stands behind a backslash.

An expression is found in a text if it describes a stretch of it. An initial segment of the
expression has a row of marks, one for each place of the text, which say where a stretch may end
that it describes.

An expression is only put to use if two machines that read the bytes of a text, one from its start
and one from its end, stay within a budget.
-/
namespace KeyRemap.Expression

/-- What an expression asks for next. -/
inductive Part where
  /-- The start of the text. -/
  | start
  /-- The end of the text. -/
  | stop
  /-- A character other than a line feed. -/
  | any
  /-- A run of characters other than line feeds. -/
  | run
  | char (c : Char)
deriving DecidableEq, Repr

/-- Whether a character stands for itself only behind a backslash. -/
def isMeta (c : Char) : Bool :=
  ['\\', '.', '+', '*', '?', '(', ')', '|', '[', ']', '\x7b', '\x7d', '^', '$', '#', '&', '-',
    '~'].contains c

/-- The expression for a character. -/
def escape (c : Char) : List Char := if isMeta c then ['\\', c] else [c]

/-- Reads an expression. What is left out of the syntax gives nothing. -/
def parts? : List Char → Option (List Part)
  | [] => some []
  | '^' :: r => (parts? r).map (.start :: ·)
  | '$' :: r => (parts? r).map (.stop :: ·)
  | '.' :: '*' :: r => (parts? r).map (.run :: ·)
  | '.' :: r => (parts? r).map (.any :: ·)
  | '\\' :: c :: r => if isMeta c then (parts? r).map (.char c :: ·) else none
  | c :: r => if isMeta c then none else (parts? r).map (.char c :: ·)

/-- The bytes that a machine has at most. Patterns are matched by an engine for regular expressions
that documents 10 MiB as its default limit for a compiled expression, and no other one is set. -/
def budget : Nat := 10 * 1024 * 1024

/-- The bytes that every machine has for a byte of a character: the size of a state in that engine,
where a word has 64 bits. The engine does not document it; it is known from how its machines are
built. -/
def stateSize : Nat := 32

/-- The bytes that the machine for an expression has, if `one` of them are for any character and
`run` of them for a run. Its first and last states are counted by `ends`. -/
def machineSize (ends one run : Nat) (parts : List Part) : Nat :=
  parts.foldl (fun size part => size + match part with
    | .start | .stop => 0
    | .any => one
    | .run => run
    | .char c => stateSize * c.utf8Size) (stateSize * ends)

/-- Whether both machines keep to the budget. The one that reads forward has nine states with
seventeen transitions for a character other than a line feed; the one that reads backward has thirty
states, one of them with ten branches. A run has a further state with two branches. A transition
takes 8 bytes and a branch 4. As with `stateSize`, these numbers are known from how the engine
builds the machines and not from its documentation; it has been seen to match a pattern of 3000
stars and to refuse one of 14000. -/
def isAffordable (parts : List Part) : Bool :=
  machineSize 6 (9 * stateSize + 17 * 8) (10 * stateSize + 17 * 8 + 2 * 4) parts ≤ budget &&
    machineSize 4 (30 * stateSize + 10 * 4) (31 * stateSize + 12 * 4) parts ≤ budget

/-- Reads an expression that is to be put to use. -/
def compile? (expression : List Char) : Option (List Part) :=
  (parts? expression).filter isAffordable

/-- The marks at the start of the text only. -/
def atStart : List Bool → List Bool
  | [] => []
  | mark :: row => mark :: row.map fun _ => false

/-- The marks at the end of the text only. -/
def atStop : List Bool → List Bool
  | [] => []
  | [mark] => [mark]
  | _ :: row => false :: atStop row

/-- The marks behind a single character that has to pass a test. -/
def afterOne (test : Char → Bool) (cs : List Char) (row : List Bool) : List Bool :=
  false :: List.zipWith (fun c mark => mark && test c) cs row

/-- The marks behind a run of characters, but for the first; `reached` is the mark before. -/
def afterRun (reached : Bool) : List Char → List Bool → List Bool
  | c :: cs, mark :: row =>
    let here := mark || (reached && c != '\n')
    here :: afterRun here cs row
  | _, _ => []

/-- The marks behind one more part. -/
def nextRow (cs : List Char) (row : List Bool) : Part → List Bool
  | .start => atStart row
  | .stop => atStop row
  | .any => afterOne (· != '\n') cs row
  | .run =>
    match row with
    | [] => []
    | mark :: row => mark :: afterRun mark cs row
  | .char c => afterOne (· == c) cs row

/-- Whether parts describe a stretch of a text. -/
def isFound (parts : List Part) (cs : List Char) : Bool :=
  (parts.foldl (nextRow cs) (true :: cs.map fun _ => true)).contains true

end KeyRemap.Expression
