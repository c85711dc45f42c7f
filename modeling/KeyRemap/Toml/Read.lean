import KeyRemap.Toml.Atom

/-!
# Reading TOML

A file is a list of statements, each on a line of its own: a key with its value, or the header of a
table. Comments go from a number sign to the end of the line.
-/
namespace KeyRemap.Toml

/-- A control character that no string or comment may hold. -/
def isForbidden (c : Char) : Bool := (c.toNat < 32 && c != '\t') || c.toNat == 127

def isSpace (c : Char) : Bool := c == ' ' || c == '\t'

/-- A text without the spaces it begins with. -/
def skipSpaces (cs : List Char) : List Char := cs.dropWhile isSpace

/-- A text behind the line breaks, spaces and comments it begins with. -/
def skipLines? (inComment : Bool) : List Char → Option (List Char)
  | [] => some []
  | '\n' :: cs => skipLines? false cs
  | '\r' :: '\n' :: cs => skipLines? false cs
  | c :: cs =>
    if inComment then if isForbidden c then none else skipLines? true cs
    else if isSpace c then skipLines? false cs
    else if c = '#' then skipLines? true cs
    else some (c :: cs)

/-- A text behind the rest of a line on which nothing but a comment may follow. -/
def endLine? (inComment : Bool) : List Char → Option (List Char)
  | [] => some []
  | '\n' :: cs => some cs
  | '\r' :: '\n' :: cs => some cs
  | c :: cs =>
    if inComment then if isForbidden c then none else endLine? true cs
    else if isSpace c then endLine? false cs
    else if c = '#' then endLine? true cs
    else none

/-- The character for a letter behind a backslash. -/
def unescape? : Char → Option Char
  | '"' => some '"'
  | '\\' => some '\\'
  | 'b' => some '\x08'
  | 'e' => some '\x1b'
  | 'f' => some '\x0c'
  | 'n' => some '\n'
  | 'r' => some '\r'
  | 't' => some '\t'
  | _ => none

/-- The number of digits behind a letter that introduces a character by its number. -/
def escapeLength? : Char → Option Nat
  | 'x' => some 2
  | 'u' => some 4
  | 'U' => some 8
  | _ => none

/-- The character that exactly `n` hexadecimal digits write. -/
def scalar? (n : Nat) (cs : List Char) : Option Char :=
  let digits := cs.take n
  let value := valueIn 16 digits
  if digits.length = n ∧ digits.all (isDigitOf 16) ∧ value.isValidChar then some (Char.ofNat value)
  else none

/-- Reads an escape behind its backslash. -/
def escape? : List Char → Option (Char × List Char)
  | [] => none
  | c :: cs =>
    match escapeLength? c with
    | some n => (scalar? n cs).map fun d => (d, cs.drop n)
    | none => (unescape? c).map fun d => (d, cs)

/-- Reads a string on one line, behind its opening quote. `fuel` bounds its length. -/
def basicWithin : (fuel : Nat) → List Char → Option (List Char × List Char)
  | 0, _ | _, [] => none
  | fuel + 1, c :: cs =>
    if c = '"' then some ([], cs)
    else if c = '\\' then do
      let (d, cs) ← escape? cs
      let (value, rest) ← basicWithin fuel cs
      some (d :: value, rest)
    else if isForbidden c then none
    else do
      let (value, rest) ← basicWithin fuel cs
      some (c :: value, rest)

/-- Reads a string without escapes on one line, behind its opening quote. -/
def literal? : List Char → Option (List Char × List Char)
  | [] => none
  | c :: cs =>
    if c = '\x27' then some ([], cs)
    else if isForbidden c then none
    else (literal? cs).map fun (value, rest) => (c :: value, rest)

/-- The quotes at the end of a string over several lines: three close it, and up to two before
them belong to it. -/
def closing? (quote : Char) (cs : List Char) : Option (List Char × List Char) :=
  let run := (cs.takeWhile (· == quote)).length
  if 3 ≤ run ∧ run ≤ 5 then some (List.replicate (run - 3) quote, cs.drop run) else none

/-- A text without the spaces and line breaks it begins with. -/
def skipBlanks : List Char → List Char
  | '\r' :: '\n' :: cs => skipBlanks cs
  | c :: cs => if isSpace c || c == '\n' then skipBlanks cs else c :: cs
  | [] => []

/-- A text behind a line break with all the blanks that follow, if only spaces come before it. -/
def joinLines? (cs : List Char) : Option (List Char) :=
  match skipSpaces cs with
  | '\n' :: cs => some (skipBlanks cs)
  | '\r' :: '\n' :: cs => some (skipBlanks cs)
  | _ => none

/-- Reads a string over several lines, behind its opening quotes; `escapes` tells whether a
backslash is special in it. -/
def multilineWithin (quote : Char) (escapes : Bool) :
    (fuel : Nat) → List Char → Option (List Char × List Char)
  | 0, _ | _, [] => none
  | fuel + 1, c :: cs =>
    if 3 ≤ ((c :: cs).takeWhile (· == quote)).length then closing? quote (c :: cs)
    else if escapes && c == '\\' then
      match joinLines? cs with
      | some cs => multilineWithin quote escapes fuel cs
      | none => do
        let (d, cs) ← escape? cs
        let (value, rest) ← multilineWithin quote escapes fuel cs
        some (d :: value, rest)
    else
      match c, cs with
      | '\r', '\n' :: cs => do
        let (value, rest) ← multilineWithin quote escapes fuel cs
        some ('\n' :: value, rest)
      | c, cs =>
        if c != '\n' && isForbidden c then none
        else do
          let (value, rest) ← multilineWithin quote escapes fuel cs
          some (c :: value, rest)

/-- A text without the line break it begins with. -/
def dropNewline : List Char → List Char
  | '\n' :: cs => cs
  | '\r' :: '\n' :: cs => cs
  | cs => cs

/-- Reads the string that a text begins with. -/
def string? : List Char → Option (List Char × List Char)
  | '"' :: '"' :: '"' :: cs => multilineWithin '"' true cs.length (dropNewline cs)
  | '"' :: cs => basicWithin cs.length cs
  | '\x27' :: '\x27' :: '\x27' :: cs => multilineWithin '\x27' false cs.length (dropNewline cs)
  | '\x27' :: cs => literal? cs
  | _ => none

/-- A character of a name without quotes. -/
def isBare (c : Char) : Bool := c.isAlphanum || c == '_' || c == '-'

/-- Reads a name. -/
def name? (cs : List Char) : Option (String × List Char) :=
  match cs with
  | '"' :: cs => (basicWithin cs.length cs).map fun (value, rest) => (String.ofList value, rest)
  | '\x27' :: cs => (literal? cs).map fun (value, rest) => (String.ofList value, rest)
  | cs =>
    let bare := cs.takeWhile isBare
    if bare.isEmpty then none else some (String.ofList bare, cs.dropWhile isBare)

/-- Reads a key: the names before its last dot, and the last name. What follows the spaces behind it
is the rest. -/
def keyWithin : (fuel : Nat) → List Char → Option (List String × String × List Char)
  | 0, _ => none
  | fuel + 1, cs => do
    let (name, rest) ← name? cs
    match skipSpaces rest with
    | '.' :: rest =>
      let (path, last, rest) ← keyWithin fuel (skipSpaces rest)
      some (name :: path, last, rest)
    | rest => some ([], name, rest)

/-- The number of arrays and tables between brackets and braces that may be inside each other, and
of the names that a key may have. -/
def deepest : Nat := 80

/-- Reads a key, which may not be too long. -/
def key? (cs : List Char) : Option (List String × String × List Char) :=
  (keyWithin cs.length cs).filter fun (path, _) => path.length < deepest

mutual

/-- Reads a value inside `depth` arrays and tables; `fuel` bounds its length. -/
def valueWithin (depth : Nat) : (fuel : Nat) → List Char → Option (Toml × List Char)
  | 0, _ | _, [] => none
  | fuel + 1, c :: cs =>
    if c = '[' then if depth < deepest then itemsWithin (depth + 1) fuel [] cs else none
    else if c = '\x7b' then
      if depth < deepest then membersWithin (depth + 1) fuel ⟨.braced, []⟩ cs else none
    else if c = '"' ∨ c = '\x27' then
      (string? (c :: cs)).map fun (value, rest) => (.string (String.ofList value), rest)
    else
      let (atom, rest) := spanAtom (c :: cs)
      (atom? atom).map fun value => (value, rest)

/-- Reads the rest of an array. The items already read are in reverse. -/
def itemsWithin (depth : Nat) :
    (fuel : Nat) → List Toml → List Char → Option (Toml × List Char)
  | 0, _, _ => none
  | fuel + 1, done, cs => do
    match ← skipLines? false cs with
    | ']' :: rest => some (.array done.reverse, rest)
    | cs =>
      let (value, rest) ← valueWithin depth fuel cs
      match ← skipLines? false rest with
      | ',' :: rest => itemsWithin depth fuel (value :: done) rest
      | ']' :: rest => some (.array (value :: done).reverse, rest)
      | _ => none

/-- Reads the rest of a table between braces. Its keys, values and marks may be on lines of their
own. -/
def membersWithin (depth : Nat) : (fuel : Nat) → Open → List Char → Option (Toml × List Char)
  | 0, _, _ => none
  | fuel + 1, t, cs => do
    match ← skipLines? false cs with
    | '\x7d' :: rest => some (.table t.origin t.fields, rest)
    | cs =>
      let (path, last, rest) ← key? cs
      match ← skipLines? false rest with
      | '=' :: rest =>
        let (value, rest) ← valueWithin depth fuel (← skipLines? false rest)
        let t ← t.assign? path last value
        match ← skipLines? false rest with
        | ',' :: rest => membersWithin depth fuel t rest
        | '\x7d' :: rest => some (.table t.origin t.fields, rest)
        | _ => none
      | _ => none

end

/-- A file that is being read: its table, and the path of the table that keys belong to. -/
structure Reading where
  root : Open := ⟨.declared, []⟩
  path : List String := []

/-- Reads a statement, and its line to the end. -/
def Reading.statement? (r : Reading) (cs : List Char) : Option (Reading × List Char) := do
  match cs with
  | '[' :: '[' :: cs =>
    let (path, last, rest) ← key? (skipSpaces cs)
    match rest with
    | ']' :: ']' :: rest =>
      let root ← r.root.change? false (Open.extend? last) path
      some (⟨root, path ++ [last]⟩, ← endLine? false rest)
    | _ => none
  | '[' :: cs =>
    let (path, last, rest) ← key? (skipSpaces cs)
    match rest with
    | ']' :: rest =>
      let root ← r.root.change? false (Open.declare? last) path
      some (⟨root, path ++ [last]⟩, ← endLine? false rest)
    | _ => none
  | cs =>
    let (path, last, rest) ← key? cs
    match rest with
    | '=' :: rest =>
      let (value, rest) ← valueWithin 0 rest.length (skipSpaces rest)
      let root ← r.root.change? false (Open.assign? path last value) r.path
      some (⟨root, r.path⟩, ← endLine? false rest)
    | _ => none

/-- Reads statements to the end; `fuel` bounds their number. -/
def Reading.runWithin : (fuel : Nat) → Reading → List Char → Option Reading
  | 0, r, cs => do
    if (← skipLines? false cs).isEmpty then some r else none
  | fuel + 1, r, cs => do
    match ← skipLines? false cs with
    | [] => some r
    | cs =>
      let (r, rest) ← r.statement? cs
      runWithin fuel r rest

/-- The fields of the table that a text writes. A byte order mark may stand in front. -/
def parse? (cs : List Char) : Option (List (String × Toml)) :=
  let cs := match cs with
    | '\ufeff' :: cs => cs
    | cs => cs
  (Reading.runWithin cs.length {} cs).map (·.root.fields)

end KeyRemap.Toml
