import KeyRemap.Json
import KeyRemap.Text.Blank

/-!
# JSON texts

The text of a value, on one line or with one member on a line and two spaces to a level. Quotes,
backslashes and control characters below the space are escaped, and nothing else.
-/
namespace KeyRemap.Json

/-- A character inside a string. -/
def escape (c : Char) : String :=
  match c with
  | '"' => "\\\""
  | '\\' => "\\\\"
  | '\n' => "\\n"
  | '\r' => "\\r"
  | '\t' => "\\t"
  | '\x08' => "\\b"
  | '\x0c' => "\\f"
  | c =>
    if c.toNat < 16 then "\\u000" ++ String.ofList (Nat.toDigits 16 c.toNat)
    else if c.toNat < 32 then "\\u00" ++ String.ofList (Nat.toDigits 16 c.toNat)
    else c.toString

def quote (s : String) : String := "\"" ++ String.join (s.toList.map escape) ++ "\""

/-- The text of a value that has no members. A flawed part is written as if it were nothing. -/
def scalarText : Json → String
  | .null | .flawed => "null"
  | .bool true => "true"
  | .bool false => "false"
  | .int value => toString value
  | .decimal raw => raw
  | .string value => quote value
  | .array _ => "[]"
  | .object _ => "\x7b\x7d"

mutual

/-- The text of a value on one line. -/
def compact : Json → String
  | .array items => "[" ++ compactItems items ++ "]"
  | .object fields => "\x7b" ++ compactFields fields ++ "\x7d"
  | j => scalarText j

def compactItems : List Json → String
  | [] => ""
  | [j] => compact j
  | j :: js => compact j ++ "," ++ compactItems js

def compactFields : List (String × Json) → String
  | [] => ""
  | [(name, j)] => quote name ++ ":" ++ compact j
  | (name, j) :: fs => quote name ++ ":" ++ compact j ++ "," ++ compactFields fs

end

/-- The start of a line at a level. -/
def lineAt (level : Nat) : String := "\n" ++ String.ofList (Text.spaces (2 * level))

mutual

/-- The text of a value over several lines, the first of them at the given level. -/
def pretty (level : Nat) : Json → String
  | .array (j :: js) =>
    "[" ++ prettyItems (level + 1) (j :: js) ++ lineAt level ++ "]"
  | .object (f :: fs) =>
    "\x7b" ++ prettyFields (level + 1) (f :: fs) ++ lineAt level ++ "\x7d"
  | j => scalarText j

def prettyItems (level : Nat) : List Json → String
  | [] => ""
  | [j] => lineAt level ++ pretty level j
  | j :: js => lineAt level ++ pretty level j ++ "," ++ prettyItems level js

def prettyFields (level : Nat) : List (String × Json) → String
  | [] => ""
  | [(name, j)] => lineAt level ++ quote name ++ ": " ++ pretty level j
  | (name, j) :: fs =>
    lineAt level ++ quote name ++ ": " ++ pretty level j ++ "," ++ prettyFields level fs

end

end KeyRemap.Json
