/-!
# Characters in messages

How a message shows a character of the user's text: printable ASCII as itself, quotes and the
backslash with a backslash in front, tab and line ends by their letters, and everything else by
its code point in hexadecimal.
-/
namespace KeyRemap.Text

/-- General category Cc. -/
def isControl (c : Char) : Bool := c.toNat < 32 || (127 ≤ c.toNat && c.toNat ≤ 159)

/-- A character as messages show it. -/
def shown (c : Char) : List Char :=
  match c with
  | '\t' => ['\\', 't']
  | '\r' => ['\\', 'r']
  | '\n' => ['\\', 'n']
  | '\'' => ['\\', '\'']
  | '"' => ['\\', '"']
  | '\\' => ['\\', '\\']
  | c =>
    if 32 ≤ c.toNat && c.toNat ≤ 126 then [c]
    else ['\\', 'u', '\x7b'] ++ Nat.toDigits 16 c.toNat ++ ['\x7d']

/-- A text as messages show it. -/
def shownText (s : String) : String := String.ofList (s.toList.flatMap shown)

end KeyRemap.Text
