import KeyRemap.Token

/-!
# Groups of tokens

What a layout keeps on a line of its own: a comment, or a group of tokens with the comments among
and behind them. A group is a statement, the header of a block or a closing brace, or what is left
of one of these when a brace or the end of the text interrupts it. Grouping needs no more than
tokens, so a script that says nothing has a layout too.
-/
namespace KeyRemap.Layout

/-- How a group ends. -/
inductive Ending where
  /-- With a semicolon outside parentheses and brackets. -/
  | statement
  /-- With the opening brace of a block. -/
  | opens
  /-- With the closing brace that it consists of. -/
  | closes
  | incomplete
deriving DecidableEq, Repr

/-- How a token ends the group that holds it, inside so many parentheses and brackets. -/
def ending? (depth : Nat) : Lexeme → Option Ending
  | .mark .semicolon => if depth = 0 then some .statement else none
  | .mark .openBrace => some .opens
  | .mark .closeBrace => some .closes
  | _ => none

/-- The number of open parentheses and brackets behind a token. -/
def nesting (depth : Nat) : Lexeme → Nat
  | .mark .openParen | .mark .openBracket => depth + 1
  | .mark .closeParen | .mark .closeBracket => depth - 1
  | _ => depth

/-- Tokens laid out together. `taken` holds the comments among them too. -/
structure Group where
  taken : List Token
  ending : Ending
  /-- The comments behind the group that begin on its last line. -/
  beside : List Token

namespace Group

/-- The tokens that are no comments. -/
def tokens (g : Group) : List Token := g.taken.filter (!·.isComment)

/-- The comments among the tokens. -/
def inner (g : Group) : List Token := g.taken.filter (·.isComment)

end Group

/-- The line of the last token that is no comment. -/
def lastTokenLine (ts : List Token) : Nat :=
  match (ts.filter (!·.isComment)).getLast? with
  | some t => t.endLine
  | none => 0

/-- Continues a group that has begun: its further tokens, its ending and the rest. -/
def gather (depth : Nat) : List Token → List Token × Ending × List Token
  | [] => ([], .incomplete, [])
  | t :: ts =>
    if t.lexeme = .mark .closeBrace then ([], .incomplete, t :: ts)
    else
      match ending? depth t.lexeme with
      | some e => ([t], e, ts)
      | none =>
        let (taken, e, rest) := gather (nesting depth t.lexeme) ts
        (t :: taken, e, rest)

/-- The comments at the end of a list that begin below a line, split off. -/
def splitBelow (line : Nat) (ts : List Token) : List Token × List Token :=
  let below (t : Token) : Bool := t.isComment && line < t.position.line
  ((ts.reverse.dropWhile below).reverse, (ts.reverse.takeWhile below).reverse)

/-- The comments that a list begins with as long as each begins on the line where the one before
ends, and the rest. -/
def splitBeside (line : Nat) : List Token → List Token × List Token
  | [] => ([], [])
  | t :: ts =>
    if t.isComment && t.position.line == line then
      let (beside, rest) := splitBeside t.endLine ts
      (t :: beside, rest)
    else ([], t :: ts)

/-- The group that a list begins with, whose first token `t` is no comment, and the rest. The
comments below the last token of an incomplete group are not part of it. -/
def takeGroup (t : Token) (ts : List Token) : Group × List Token :=
  let (taken, ending, rest) : List Token × Ending × List Token :=
    match ending? 0 t.lexeme with
    | some e => ([], e, ts)
    | none => gather (nesting 0 t.lexeme) ts
  let line := lastTokenLine (t :: taken)
  let (taken, rest) :=
    if ending = .incomplete then
      let (kept, below) := splitBelow line taken
      (kept, below ++ rest)
    else (taken, rest)
  let (beside, rest) := splitBeside line rest
  (⟨t :: taken, ending, beside⟩, rest)

theorem taken_append_gather (depth : Nat) (ts : List Token) :
    (gather depth ts).1 ++ (gather depth ts).2.2 = ts := by
  fun_induction gather depth ts with
  | case1 | case2 | case3 => rfl
  | case4 depth t ts hb he taken e rest hg ih =>
    rw [hg] at ih
    simpa using ih

theorem splitBelow_append (line : Nat) (ts : List Token) :
    (splitBelow line ts).1 ++ (splitBelow line ts).2 = ts := by
  simp [splitBelow, ← List.reverse_append]

theorem splitBeside_append (line : Nat) (ts : List Token) :
    (splitBeside line ts).1 ++ (splitBeside line ts).2 = ts := by
  fun_induction splitBeside line ts with
  | case1 | case3 => rfl
  | case2 line t ts h beside rest hr ih =>
    rw [hr] at ih
    simpa using ih

/-- A group and the rest are the tokens they come from, in their order. -/
theorem takeGroup_append (t : Token) (ts : List Token) :
    (takeGroup t ts).1.taken ++ (takeGroup t ts).1.beside ++ (takeGroup t ts).2 = t :: ts := by
  unfold takeGroup
  have split : ∀ (taken : List Token) (e : Ending) (rest : List Token), taken ++ rest = ts →
      (let line := lastTokenLine (t :: taken)
       let p := if e = .incomplete then
          ((splitBelow line taken).1, (splitBelow line taken).2 ++ rest) else (taken, rest)
       t :: p.1 ++ (splitBeside line p.2).1 ++ (splitBeside line p.2).2) = t :: ts := by
    intro taken e rest h
    simp only [List.append_assoc, splitBeside_append]
    split
    · have hb := splitBelow_append (lastTokenLine (t :: taken)) taken
      rw [List.cons_append, ← List.append_assoc, hb, h]
    · rw [List.cons_append, h]
  cases he : ending? 0 t.lexeme with
  | some e => exact split [] e ts rfl
  | none => exact split _ _ _ (taken_append_gather (nesting 0 t.lexeme) ts)

/-- A comment that stands alone, or a group. -/
inductive Piece where
  | comment (t : Token)
  | group (g : Group)

/-- The pieces of a list of tokens. -/
def pieces : List Token → List Piece
  | [] => []
  | t :: ts =>
    if t.isComment then .comment t :: pieces ts
    else .group (takeGroup t ts).1 :: pieces (takeGroup t ts).2
termination_by ts => ts.length
decreasing_by
  · simp
  · have h := congrArg List.length (takeGroup_append t ts)
    have hne : (takeGroup t ts).1.taken = t :: (takeGroup t ts).1.taken.tail := by
      simp [takeGroup]
    rw [hne] at h
    simp at h ⊢
    omega

end KeyRemap.Layout
