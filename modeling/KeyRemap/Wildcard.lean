import KeyRemap.Expression

/-!
# Wildcards

A pattern describes identifiers: a star stands for any run of characters and a question mark for
any one, neither across a line feed, and every other character stands for itself. A pattern with
either of them is put to use as a regular expression.
-/
namespace KeyRemap.Wildcard

/-- The expression for a character of a pattern. -/
def expressionFor : Char → List Char
  | '*' => ['.', '*']
  | '?' => ['.']
  | c => Expression.escape c

/-- The expression that is found in the texts that a pattern describes. -/
def expression (pattern : List Char) : List Char :=
  '^' :: pattern.flatMap expressionFor ++ ['$']

/-- Whether a character of a pattern stands for others. -/
def isWild (c : Char) : Bool := c == '*' || c == '?'

/-- Whether the expression for a pattern is found in an identifier. An expression that cannot be
put to use is found in none. -/
def describesByExpression (pattern id : String) : Bool :=
  (Expression.compile? (expression pattern.toList)).any (Expression.isFound · id.toList)

/-- Whether a pattern describes an identifier. One without a star or a question mark describes
itself only. -/
def describes (pattern id : String) : Bool :=
  if pattern.toList.any isWild then describesByExpression pattern id else pattern = id

end KeyRemap.Wildcard
