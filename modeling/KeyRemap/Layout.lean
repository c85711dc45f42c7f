/-!
# Layouts

How a script is laid out.
-/
namespace KeyRemap

structure Layout where
  /-- Spaces to a level of nesting. -/
  indentWidth : Nat := 4
  /-- The number of characters up to which a statement with a list stays on one line. -/
  maxLineLength : Nat := 80
  /-- Whether runs of blank lines become one blank line; otherwise they vanish. -/
  collapseBlankLines : Bool := true
  /-- Whether a comment at the end of a line stays there; otherwise it moves below. -/
  keepCommentsInPlace : Bool := true
deriving DecidableEq, Repr

end KeyRemap
