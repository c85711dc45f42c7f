import KeyRemap.Vocabulary
import KeyRemap.Text.Distance
import KeyRemap.Text.Lowercase
import KeyRemap.Text.Occurrence

/-!
# Finding key names

Suggestions for a name that may be misspelled, and the search of the listings. Both disregard case.
-/
namespace KeyRemap.Vocabulary

open Text

/-- The lowercase characters of a name. -/
def folded (name : String) : List Char := lowercase name.toList

/-- The greatest distance of a suggestion. -/
def suggestionDistance : Nat := 3

/-- The greatest number of suggestions. -/
def suggestionCount : Nat := 3

/-- The order of suggestions: by distance, then by name. -/
def nearerOrFirst (a b : Nat × String) : Bool :=
  a.1 < b.1 || (a.1 == b.1 && !(b.2 < a.2))

/-- Those of some spellings that are closest to a name. -/
def nearest (spellings : List String) (name : String) : List String :=
  let wanted := folded (bareName name)
  if wanted.isEmpty then []
  else
    let scored := spellings.map fun s => (distance wanted (folded s), s)
    let near := scored.filter (·.1 ≤ suggestionDistance)
    ((near.mergeSort nearerOrFirst).take suggestionCount).map (·.2)

/-- The spellings closest to a name. -/
def suggest (v : Vocabulary) (name : String) : List String := nearest v.spellings name

/-- How well a key fits a query. -/
inductive Fit where
  /-- The code, the name or an alias is the query. -/
  | exact
  /-- The code or the name starts with the query. -/
  | start
  /-- The query occurs in the code or the name. -/
  | inside
deriving DecidableEq, Repr

/-- How well a key fits a query in lowercase, if it does. -/
def fit? (query : List Char) (k : Key) : Option Fit :=
  let code := folded k.code
  let name := folded k.name
  if code = query || name = query || k.aliases.any (folded · = query) then some .exact
  else if query.isPrefixOf code || query.isPrefixOf name then some .start
  else if occursIn query code || occursIn query name then some .inside
  else none

/-- The keys that fit a query, the best first. -/
def search (v : Vocabulary) (query : String) : List Key :=
  if query.isEmpty then v.keys
  else
    let fits := v.keys.map fun k => (fit? (folded query) k, k)
    let at? (fit : Fit) : List Key := (fits.filter (·.1 = some fit)).map (·.2)
    at? .exact ++ at? .start ++ at? .inside

end KeyRemap.Vocabulary
