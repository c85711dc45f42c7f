import KeyRemap.Token
import KeyRemap.Word
import KeyRemap.Text.Blank
import KeyRemap.Text.Decimal
import KeyRemap.Text.Printable

/-!
# Tokens of a text

`scan` reads the lexeme a text begins with, and `tokenize` reads all of them, skipping blanks. A
lexeme is spelled by exactly the characters it is read from (`spelling_append_of_scan`), so the
place behind it follows from its spelling. The first fault ends the reading.
-/
namespace KeyRemap

open Text

/-- What a text can have that no token begins with or ends in. -/
inductive LexicalFault where
  | unterminatedString
  | unknownEscape (c : Char)
  | unterminatedComment
  | loneSlash
  | loneMinus
  | numberOutOfRange (raw : String)
  | strayCharacter (c : Char)
deriving DecidableEq, Repr

namespace LexicalFault

def message : LexicalFault → String
  | .unterminatedString => "unterminated string literal"
  | .unknownEscape c => "unknown escape sequence '\\" ++ String.ofList (shown c) ++ "'"
  | .unterminatedComment => "unterminated block comment"
  | .loneSlash => "unexpected character '/'"
  | .loneMinus => "unexpected character '-'"
  | .numberOutOfRange raw => "integer literal " ++ raw ++ " is out of range"
  | .strayCharacter c => "unexpected character '" ++ String.ofList (shown c) ++ "'"

def hint : LexicalFault → Option String
  | .unterminatedString => some "add a closing double quote"
  | .unknownEscape _ => some "use one of \\\" \\\\ \\n \\t"
  | .unterminatedComment => some "close the comment with */"
  | .loneSlash => some "comments start with // or /*"
  | .loneMinus => some "negative numbers are written without spaces, e.g. -5"
  | .numberOutOfRange _ | .strayCharacter _ => none

end LexicalFault

/-- A fault with the text from the place where it is reported. -/
structure ScanError where
  fault : LexicalFault
  rest : List Char

def isNameStart (c : Char) : Bool := c.isAlpha || c == '_'

def isNamePart (c : Char) : Bool := c.isAlphanum || c == '_'

/-- The character that an escape stands for. -/
def unescape : Char → Option Char
  | '"' => some '"'
  | '\\' => some '\\'
  | 'n' => some '\n'
  | 't' => some '\t'
  | _ => none

/-- Reads a string behind its opening quote: the value, the spelling with the closing quote, and
the rest. An error without a fault is a string that does not end on its line. -/
def stringBody : List Char → Except (Option ScanError) (List Char × List Char × List Char)
  | [] => .error none
  | '\n' :: _ => .error none
  | '"' :: r => .ok ([], ['"'], r)
  | '\\' :: [] => .error none
  | '\\' :: c :: r =>
    match unescape c with
    | none => .error (some ⟨.unknownEscape c, '\\' :: c :: r⟩)
    | some v =>
      match stringBody r with
      | .error e => .error e
      | .ok (value, raw, rest) => .ok (v :: value, '\\' :: c :: raw, rest)
  | c :: r =>
    match stringBody r with
    | .error e => .error e
    | .ok (value, raw, rest) => .ok (c :: value, c :: raw, rest)

/-- Reads a block comment behind its opening delimiter: the spelling with the closing delimiter,
and the rest. -/
def blockBody : List Char → Option (List Char × List Char)
  | [] => none
  | '*' :: '/' :: r => some (['*', '/'], r)
  | c :: r => (blockBody r).map fun (raw, rest) => (c :: raw, rest)

def scanString (r : List Char) : Except ScanError (Lexeme × List Char) :=
  match stringBody r with
  | .error none => .error ⟨.unterminatedString, '"' :: r⟩
  | .error (some e) => .error e
  | .ok (value, raw, rest) => .ok (.quoted (String.ofList value) (String.ofList ('"' :: raw)), rest)

/-- Reads a comment behind its first slash. The blanks at the end of a line comment are not part
of it. -/
def scanComment (r : List Char) : Except ScanError (Lexeme × List Char) :=
  match r with
  | '/' :: _ =>
    let text := trimEnd (('/' :: r).takeWhile (· != '\n'))
    .ok (.lineComment (String.ofList text), ('/' :: r).drop text.length)
  | '*' :: body =>
    match blockBody body with
    | none => .error ⟨.unterminatedComment, '/' :: r⟩
    | some (raw, rest) => .ok (.blockComment (String.ofList ('/' :: '*' :: raw)), rest)
  | _ => .error ⟨.loneSlash, '/' :: r⟩

/-- Reads a number with the given sign, whose digits the text begins with. -/
def scanNumber (negative : Bool) (r : List Char) : Except ScanError (Lexeme × List Char) :=
  let digits := r.takeWhile Char.isDigit
  let sign : List Char := if negative then ['-'] else []
  let raw := String.ofList (sign ++ digits)
  let value : Int := if negative then -(Decimal.value digits : Int) else Decimal.value digits
  if digits.isEmpty then .error ⟨.loneMinus, sign ++ r⟩
  else if fitsSigned value then .ok (.number value raw, r.dropWhile Char.isDigit)
  else .error ⟨.numberOutOfRange raw, sign ++ r⟩

/-- Reads the lexeme that the text `c :: r` begins with. -/
def scan (c : Char) (r : List Char) : Except ScanError (Lexeme × List Char) :=
  match Mark.ofChar? c with
  | some m => .ok (.mark m, r)
  | none =>
    if c = '"' then scanString r
    else if c = '/' then scanComment r
    else if c = '-' then scanNumber true r
    else if c.isDigit then scanNumber false (c :: r)
    else if isNameStart c then
      .ok (.name (String.ofList (c :: r.takeWhile isNamePart)), r.dropWhile isNamePart)
    else .error ⟨.strayCharacter c, c :: r⟩

theorem raw_append_of_stringBody {cs value raw rest : List Char}
    (h : stringBody cs = .ok (value, raw, rest)) : raw ++ rest = cs := by
  fun_induction stringBody cs generalizing value raw rest with
  | case1 | case2 | case4 => simp at h
  | case3 r => simp at h; obtain ⟨-, rfl, rfl⟩ := h; rfl
  | case5 c r hc => simp at h
  | case6 c r v hv e he ih => simp at h
  | case7 c r v hv value' raw' rest' hr ih =>
    simp at h
    obtain ⟨-, rfl, rfl⟩ := h
    simp [ih hr]
  | case8 c r _ _ _ _ e he ih => simp at h
  | case9 c r _ _ _ _ value' raw' rest' hr ih =>
    simp at h
    obtain ⟨-, rfl, rfl⟩ := h
    simp [ih hr]

theorem raw_append_of_blockBody {cs raw rest : List Char}
    (h : blockBody cs = some (raw, rest)) : raw ++ rest = cs := by
  fun_induction blockBody cs generalizing raw rest with
  | case1 => simp at h
  | case2 r => simp at h; obtain ⟨rfl, rfl⟩ := h; rfl
  | case3 c r _ ih =>
    obtain ⟨⟨raw', rest'⟩, hr, he⟩ := Option.map_eq_some_iff.1 h
    simp at he
    obtain ⟨rfl, rfl⟩ := he
    simp [ih hr]

theorem spelling_append_of_scanString {r rest : List Char} {l : Lexeme}
    (h : scanString r = .ok (l, rest)) : l.spelling ++ rest = '"' :: r ∧ l.spelling ≠ [] := by
  unfold scanString at h
  split at h
  · simp at h
  · simp at h
  · rename_i hb
    simp at h
    obtain ⟨rfl, rfl⟩ := h
    simp [Lexeme.spelling, raw_append_of_stringBody hb]

theorem spelling_append_of_scanComment {r rest : List Char} {l : Lexeme}
    (h : scanComment r = .ok (l, rest)) : l.spelling ++ rest = '/' :: r ∧ l.spelling ≠ [] := by
  unfold scanComment at h
  split at h
  · rename_i r
    simp only [Except.ok.injEq, Prod.mk.injEq] at h
    obtain ⟨rfl, rfl⟩ := h
    simp only [Lexeme.spelling, String.toList_ofList]
    obtain ⟨bs, -, hb⟩ := trimEnd_append_blanks (('/' :: '/' :: r).takeWhile (· != '\n'))
    have ht := List.takeWhile_append_dropWhile (p := (· != '\n')) (l := '/' :: '/' :: r)
    have hn : trimEnd (('/' :: '/' :: r).takeWhile (· != '\n')) ≠ [] :=
      trimEnd_cons_ne_nil (c := '/') rfl
    generalize ('/' :: '/' :: r).takeWhile (· != '\n') = front at *
    rw [← hb, List.append_assoc] at ht
    refine ⟨?_, hn⟩
    conv => lhs; rhs; rw [← ht]
    rw [List.drop_left, ht]
  · split at h
    · simp at h
    · rename_i hb
      simp at h
      obtain ⟨rfl, rfl⟩ := h
      simp [Lexeme.spelling, raw_append_of_blockBody hb]
  · simp at h

theorem spelling_append_of_scanNumber {negative : Bool} {r rest : List Char} {l : Lexeme}
    (h : scanNumber negative r = .ok (l, rest)) :
    l.spelling ++ rest = (if negative then ['-'] else []) ++ r ∧ l.spelling ≠ [] := by
  unfold scanNumber at h
  simp only at h
  split at h
  · cases h
  · rename_i hd
    generalize hv : (if negative then -(Decimal.value (r.takeWhile Char.isDigit) : Int)
      else Decimal.value (r.takeWhile Char.isDigit)) = value at h
    split at h
    · cases h
      simp [Lexeme.spelling] at hd ⊢
      exact fun _ => hd
    · cases h

/-- The text is the lexeme read from it and the rest, and the lexeme has characters. -/
theorem spelling_append_of_scan {c : Char} {r rest : List Char} {l : Lexeme}
    (h : scan c r = .ok (l, rest)) : l.spelling ++ rest = c :: r ∧ l.spelling ≠ [] := by
  unfold scan at h
  split at h
  · rename_i m hm
    cases h
    simp [Lexeme.spelling, Mark.ofChar?_eq_some hm]
  · split at h
    · rename_i hc
      exact hc ▸ spelling_append_of_scanString h
    · split at h
      · rename_i hc
        exact hc ▸ spelling_append_of_scanComment h
      · split at h
        · rename_i hc
          simpa [hc] using spelling_append_of_scanNumber h
        · split at h
          · simpa using spelling_append_of_scanNumber h
          · split at h
            · cases h
              simp [Lexeme.spelling]
            · cases h

theorem length_lt_of_scan {c : Char} {r rest : List Char} {l : Lexeme}
    (h : scan c r = .ok (l, rest)) : rest.length < (c :: r).length := by
  obtain ⟨hs, hn⟩ := spelling_append_of_scan h
  rw [← hs, List.length_append]
  have := List.length_pos_iff.2 hn
  omega

/-- A lexical fault in a script. -/
structure LexicalError where
  position : Position
  fault : LexicalFault
deriving DecidableEq, Repr

/-- The tokens of a text whose first character is at the given place. -/
def tokenizeFrom (p : Position) : List Char → Except LexicalError (List Token)
  | [] => .ok []
  | c :: r =>
    if isBlank c then tokenizeFrom (p.step c) r
    else
      match h : scan c r with
      | .error e => .error ⟨p.after ((c :: r).take ((c :: r).length - e.rest.length)), e.fault⟩
      | .ok (l, rest) =>
        have : rest.length < (c :: r).length := length_lt_of_scan h
        match tokenizeFrom (p.after l.spelling) rest with
        | .error e => .error e
        | .ok ts => .ok (Token.place l p :: ts)
termination_by cs => cs.length
decreasing_by
  · simp
  · exact this

/-- The tokens of a text, comments included. -/
def tokenize (cs : List Char) : Except LexicalError (List Token) := tokenizeFrom .start cs

end KeyRemap
