/-!
# Edit distance

The least number of insertions, deletions and replacements of single characters that turn one text
into another. The table of the distances between initial segments is filled row by row; a row
belongs to an initial segment of the first text and holds one entry for each initial segment of
the second.
-/
namespace KeyRemap.Text

/-- The entries of a row after its first: `corner` and the list are the row above from the column
on the left, `left` is the entry just found. -/
def fillRow (a : Char) : List Char → Nat → List Nat → Nat → List Nat
  | b :: bs, corner, above :: row, left =>
    let here := min (min (left + 1) (above + 1)) (if a = b then corner else corner + 1)
    here :: fillRow a bs above row here
  | _, _, _, _ => []

/-- The row below, for one more character of the first text. -/
def nextRow (bs : List Char) (row : List Nat) (a : Char) : List Nat :=
  match row with
  | [] => []
  | first :: rest => (first + 1) :: fillRow a bs first rest (first + 1)

/-- The edit distance of two texts. -/
def distance (as bs : List Char) : Nat :=
  (as.foldl (nextRow bs) (List.range (bs.length + 1))).getLastD 0

/-- The first name of least distance to `target`, if that distance is at most `limit`. -/
def closest? (limit : Nat) (target : String) (names : List String) : Option String :=
  let near := (names.map fun name => (distance target.toList name.toList, name)).filter
    (fun scored => scored.1 ≤ limit)
  near.foldl (fun best scored => match best with
    | none => some scored
    | some b => if scored.1 < b.1 then some scored else some b) none |>.map (·.2)

end KeyRemap.Text
