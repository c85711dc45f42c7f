import KeyRemap.Position

/-!
# Tokens

A lexeme is a word of the language with its spelling; a token is a lexeme with its place in a
script. Comments are lexemes too, so that a layout can keep them.
-/
namespace KeyRemap

/-- A punctuation mark. -/
inductive Mark where
  | openParen | closeParen | openBrace | closeBrace | openBracket | closeBracket | comma | semicolon
deriving DecidableEq, Repr

/-- The character of a mark. -/
def Mark.char : Mark → Char
  | .openParen => '('
  | .closeParen => ')'
  | .openBrace => '\x7b'
  | .closeBrace => '\x7d'
  | .openBracket => '['
  | .closeBracket => ']'
  | .comma => ','
  | .semicolon => ';'

/-- The mark that a character is. -/
def Mark.ofChar? : Char → Option Mark
  | '(' => some .openParen
  | ')' => some .closeParen
  | '\x7b' => some .openBrace
  | '\x7d' => some .closeBrace
  | '[' => some .openBracket
  | ']' => some .closeBracket
  | ',' => some .comma
  | ';' => some .semicolon
  | _ => none

@[simp] theorem Mark.ofChar?_char (m : Mark) : Mark.ofChar? m.char = some m := by
  cases m <;> rfl

theorem Mark.ofChar?_eq_some {c : Char} {m : Mark} (h : Mark.ofChar? c = some m) : c = m.char := by
  unfold Mark.ofChar? at h
  split at h <;> simp_all <;> subst h <;> rfl

/-- A word of the language. Strings, numbers and comments keep their spelling, quotes and comment
delimiters included. -/
inductive Lexeme where
  | name (text : String)
  | quoted (value raw : String)
  | number (value : Int) (raw : String)
  | mark (m : Mark)
  | lineComment (text : String)
  | blockComment (text : String)
deriving DecidableEq, Repr

namespace Lexeme

def isComment : Lexeme → Bool
  | .lineComment _ | .blockComment _ => true
  | _ => false

/-- The characters of a lexeme in a script. -/
def spelling : Lexeme → List Char
  | .name text | .lineComment text | .blockComment text => text.toList
  | .quoted _ raw | .number _ raw => raw.toList
  | .mark m => [m.char]

/-- The spelling as a string. -/
def text (l : Lexeme) : String := String.ofList l.spelling

/-- A lexeme as messages name it. -/
def describe : Lexeme → String
  | .name text => "'" ++ text ++ "'"
  | .quoted _ raw => "string " ++ raw
  | .number _ raw => "number " ++ raw
  | .mark m => "'" ++ m.char.toString ++ "'"
  | .lineComment _ | .blockComment _ => "comment"

end Lexeme

/-- A lexeme in a script: where it starts and the line of its last character. -/
structure Token where
  lexeme : Lexeme
  position : Position
  endLine : Nat
deriving DecidableEq, Repr

namespace Token

def isComment (t : Token) : Bool := t.lexeme.isComment

/-- The token that a lexeme is at a place. -/
def place (l : Lexeme) (p : Position) : Token := ⟨l, p, (p.after l.spelling).line⟩

@[simp] theorem place_lexeme (l : Lexeme) (p : Position) : (place l p).lexeme = l := rfl

@[simp] theorem place_position (l : Lexeme) (p : Position) : (place l p).position = p := rfl

end Token

end KeyRemap
