import KeyRemap.Layout
import KeyRemap.Layout.Group
import KeyRemap.Token.Scan
import KeyRemap.Text.Lines

/-!
# Laying out a script

A text is laid out by its tokens, so nothing that is not blank is added, dropped or moved, except
that comments inside a statement move behind it and that the comma in front of a closing bracket
is written only where a list has a key on each line.
-/
namespace KeyRemap.Layout

open Text

/-- Whether a space stands between two lexemes on a line. -/
def spaced (left right : Lexeme) : Bool :=
  match left, right with
  | .mark .openParen, _ | .mark .openBracket, _ => false
  | _, .mark .closeParen | _, .mark .closeBracket | _, .mark .comma | _, .mark .semicolon => false
  | .name _, .mark .openParen => false
  | _, _ => true

/-- The text of lexemes on one line, behind the lexeme `left` if there is one. A comma in front of
a closing bracket is left out. -/
def joinedAfter (left : Option Lexeme) : List Lexeme → List Char
  | [] => []
  | l :: ls =>
    if l = .mark .comma && ls.head? = some (.mark .closeBracket) then joinedAfter left ls
    else
      let gap : List Char := match left with
        | some left => if spaced left l then [' '] else []
        | none => []
      gap ++ l.spelling ++ joinedAfter (some l) ls

/-- The text of lexemes on one line. -/
def joined (ls : List Lexeme) : List Char := joinedAfter none ls

/-- The parts of a statement with a list: up to the first opening bracket, the members, and from
the last closing bracket on. A list without members counts for none. -/
def splitList? (ls : List Lexeme) : Option (List Lexeme × List Lexeme × List Lexeme) :=
  match ls.dropWhile (· ≠ .mark .openBracket) with
  | [] => none
  | bracket :: body =>
    let back := body.reverse
    match back.dropWhile (· ≠ .mark .closeBracket) with
    | [] | [_] => none
    | closing :: members =>
      some (ls.takeWhile (· ≠ .mark .openBracket) ++ [bracket], members.reverse,
        closing :: (back.takeWhile (· ≠ .mark .closeBracket)).reverse)

/-- The members of a list between its commas; nothing between two commas is no member. -/
def membersAfter (current : List Lexeme) : List Lexeme → List (List Lexeme)
  | [] => if current.isEmpty then [] else [current]
  | l :: ls =>
    if l = .mark .comma then
      (if current.isEmpty then [] else [current]) ++ membersAfter [] ls
    else membersAfter (current ++ [l]) ls

variable (layout : Layout)

/-- The blanks that a line at a level begins with. -/
def indent (level : Nat) : List Char := spaces (level * layout.indentWidth)

/-- The lines of a group without its comments: one, or one for each member of a list if one line is
too long. -/
def groupLines (level : Nat) (ls : List Lexeme) : List (List Char) :=
  let single := layout.indent level ++ joined ls
  match splitList? ls with
  | none => [single]
  | some (front, members, back) =>
    if single.length ≤ layout.maxLineLength then [single]
    else
      [layout.indent level ++ joined front] ++
      (membersAfter [] members).map (fun m => layout.indent (level + 1) ++ joined m ++ [',']) ++
      [layout.indent level ++ joined back]

/-- Lines with comments at the end of the last one. -/
def withComments (comments : List Token) (lines : List (List Char)) : List (List Char) :=
  match lines.reverse with
  | [] => []
  | last :: rest =>
    (last ++ comments.flatMap (fun t => ' ' :: t.lexeme.spelling)) :: rest |>.reverse

namespace Piece

/-- Whether the piece opens a block. -/
def opens : Piece → Bool
  | .comment _ => false
  | .group g => g.ending = .opens

/-- Whether the piece closes a block. -/
def closes : Piece → Bool
  | .comment _ => false
  | .group g => g.ending = .closes

/-- The line on which the piece begins. -/
def firstLine : Piece → Nat
  | .comment t => t.position.line
  | .group g => ((g.taken.head?).map (·.position.line)).getD 0

/-- The line on which the piece ends. -/
def lastLine : Piece → Nat
  | .comment t => t.endLine
  | .group g =>
    match g.beside.getLast? with
    | some t => t.endLine
    | none => (g.inner.map (·.endLine)).foldl max (lastTokenLine g.taken)

end Piece

/-- The lines of a piece at a level. Comments that do not stay beside a group stand below it, at the
level of what follows. -/
def pieceLines (level : Nat) : Piece → List (List Char)
  | .comment t => [layout.indent level ++ t.lexeme.spelling]
  | .group g =>
    let lines := layout.groupLines level (g.tokens.map (·.lexeme))
    let below (ts : List Token) : List (List Char) :=
      let level := if g.ending = .opens then level + 1 else level
      ts.map fun t => layout.indent level ++ t.lexeme.spelling
    if layout.keepCommentsInPlace && g.inner.isEmpty then withComments g.beside lines
    else lines ++ below (g.inner ++ g.beside)

/-- Whether a piece has a blank line above it: there was one in the text, and the piece neither
follows the opening of a block nor closes one. `last` is the line where the piece before ended. -/
def blankAbove (afterOpening : Bool) (last : Option Nat) (p : Piece) : Bool :=
  match last with
  | none => false
  | some n => layout.collapseBlankLines && !afterOpening && !p.closes && n + 1 < p.firstLine

/-- The lines of pieces inside so many blocks. -/
def piecesLines (level : Nat) (afterOpening : Bool) (last : Option Nat) :
    List Piece → List (List Char)
  | [] => []
  | p :: ps =>
    let level := if p.closes then level - 1 else level
    (if layout.blankAbove afterOpening last p then [[]] else []) ++
      layout.pieceLines level p ++
      piecesLines (if p.opens then level + 1 else level) p.opens (some p.lastLine) ps

/-- The lines of a list of tokens. -/
def tokenLines (ts : List Token) : List (List Char) := layout.piecesLines 0 false none (pieces ts)

/-- A text laid out, if it consists of tokens. -/
def format? (text : List Char) : Except LexicalError (List Char) :=
  (tokenize text).map fun ts => ofLines (layout.tokenLines ts)

/-- A text laid out. One that does not consist of tokens stays as it is. -/
def format (text : List Char) : List Char :=
  match layout.format? text with
  | .ok formatted => formatted
  | .error _ => text

end KeyRemap.Layout
