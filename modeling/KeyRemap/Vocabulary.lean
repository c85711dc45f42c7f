/-!
# Key names

A vocabulary lists keys with the names that scripts may use for them: the code, which is the
canonical spelling, and any number of aliases. A prefix that marks virtual keys may stand in front
of any name. Of several keys that list one name the last is meant.
-/
namespace KeyRemap

structure KeyCategory where
  id : String
  name : String
  description : String
deriving DecidableEq, Repr

structure Key where
  /-- The canonical spelling. -/
  code : String
  /-- The name for people. -/
  name : String
  category : String
  aliases : List String := []
deriving DecidableEq, Repr

/-- The spellings of a key in scripts. -/
def Key.spellings (k : Key) : List String := k.code :: k.aliases

structure Vocabulary where
  keys : List Key
  categories : List KeyCategory
deriving DecidableEq, Repr

/-- A name without the mark of virtual keys, if it has one. -/
def bareName (name : String) : String :=
  match name.toList with
  | 'V' :: 'K' :: '_' :: rest => String.ofList rest
  | _ => name

namespace Vocabulary

/-- The key that a bare name means. -/
def lookup? (v : Vocabulary) (bare : String) : Option Key :=
  v.keys.findRev? (·.spellings.contains bare)

/-- The key that a name means. -/
def resolve? (v : Vocabulary) (name : String) : Option Key := v.lookup? (bareName name)

/-- Whether a name means a key. -/
def knows (v : Vocabulary) (name : String) : Bool := (v.resolve? name).isSome

/-- The canonical spelling of a name. -/
def canonical? (v : Vocabulary) (name : String) : Option String := (v.resolve? name).map (·.code)

/-- What two names have in common exactly when they mean the same key: the canonical spelling, or
the bare name if that means no key. -/
def identify (v : Vocabulary) (name : String) : String := (v.canonical? name).getD (bareName name)

/-- The key with a code. -/
def withCode? (v : Vocabulary) (code : String) : Option Key := v.keys.find? (·.code = code)

/-- The keys of a category. -/
def inCategory (v : Vocabulary) (id : String) : List Key := v.keys.filter (·.category = id)

/-- Every spelling of every key, each once. -/
def spellings (v : Vocabulary) : List String := (v.keys.flatMap Key.spellings).eraseDups

end Vocabulary

end KeyRemap
