import KeyRemap.Position
import KeyRemap.Text.Decimal
import KeyRemap.Text.Blank
import KeyRemap.Text.Lines

/-!
# Faults

A fault is what a reader of a script is told: where it is, what is wrong and, if that is known,
how to mend it. Its frame shows the line of the fault between its neighbours, with a caret under
the column.
-/
namespace KeyRemap

open Text

/-- A located message. -/
structure Fault where
  position : Position
  message : String
  hint : Option String := none

namespace Fault

/-- The fault on one line. -/
def text (f : Fault) : String :=
  f.position.text ++ ": " ++ f.message ++
    match f.hint with
    | none => ""
    | some hint => " (" ++ hint ++ ")"

/-- A line of the source in a frame. The row of the fault carries the distance of the caret from
the start of the text. -/
structure Row where
  number : Nat
  text : List Char
  caret : Option Nat

/-- The number of the first row. -/
def firstRow (f : Fault) : Nat := max (f.position.line - 1) 1

/-- The number of the last row. -/
def lastRow (f : Fault) (source : List Char) : Nat :=
  min (f.position.line + 1) (max (lines source).length f.position.line)

/-- The row of a line, if the frame has one: the line exists, or the fault is on it. -/
def row? (f : Fault) (ls : List (List Char)) (number : Nat) : Option Row :=
  if number = f.position.line then
    some ⟨number, (ls[number - 1]?).getD [], some (f.position.column - 1)⟩
  else if number ≤ ls.length then some ⟨number, (ls[number - 1]?).getD [], none⟩
  else none

/-- The line of the fault and its neighbours, as far as the source has them. -/
def rows (f : Fault) (source : List Char) : List Row :=
  (List.range' f.firstRow (f.lastRow source + 1 - f.firstRow)).filterMap (f.row? (lines source))

/-- A row behind a gutter of the given width, with the line of the caret if it has one. -/
def Row.print (gutter : Nat) (r : Row) : List (List Char) :=
  let number := Decimal.digits r.number
  let shown := spaces (gutter - number.length) ++ number ++ " | ".toList ++ r.text
  match r.caret with
  | none => [shown]
  | some distance => [shown, spaces gutter ++ " | ".toList ++ spaces distance ++ ['^']]

/-- The lines of the frame. `name` is that of the file, if the source has one. -/
def frameLines (f : Fault) (source : List Char) (name : Option String) : List (List Char) :=
  let gutter := (Decimal.digits (f.lastRow source)).length
  let origin := match name with
    | none => ""
    | some name => name ++ ":"
  ["error: ".toList ++ f.message.toList,
    spaces gutter ++ "--> ".toList ++ origin.toList ++ f.position.text.toList,
    spaces gutter ++ " |".toList] ++
  (f.rows source).flatMap (Row.print gutter) ++
  match f.hint with
  | none => []
  | some hint => [spaces gutter ++ " = help: ".toList ++ hint.toList]

/-- The fault with the lines around it. -/
def frame (f : Fault) (source : String) (name : Option String) : String :=
  String.ofList (ofLines (f.frameLines source.toList name))

end Fault

end KeyRemap
