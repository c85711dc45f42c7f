/-!
# Paths

A path is a text of names with slashes between them. Slashes and single dots at its end are no part
of its name. The extension of a name is what follows its last dot, unless the name begins with that
dot.
-/
namespace KeyRemap

structure Path where
  text : String
deriving DecidableEq, Repr, Inhabited

namespace Path

/-- A reversed path without the slashes and single dots that it begins with. A slash that is the
whole path stays, and so does a dot. -/
def dropTail : List Char → List Char
  | ['/'] => ['/']
  | ['.', '/'] => ['/']
  | '.' :: '/' :: cs => dropTail cs
  | '/' :: cs => dropTail cs
  | cs => cs

/-- A path up to the end of its last name. -/
def trimmed (cs : List Char) : List Char := (dropTail cs.reverse).reverse

/-- The last name of a trimmed path. -/
def lastName (cs : List Char) : List Char := (cs.reverse.takeWhile (· != '/')).reverse

/-- A trimmed path up to its last name. -/
def front (cs : List Char) : List Char := (cs.reverse.dropWhile (· != '/')).reverse

/-- Whether a name is that of a file or directory, and does not stand for the directory itself or
the one above. -/
def isProper (name : List Char) : Bool :=
  !name.isEmpty && name != ['.'] && name != ['.', '.']

/-- The name that the path ends in. -/
def name? (p : Path) : Option (List Char) :=
  let name := lastName (trimmed p.text.toList)
  if isProper name then some name else none

/-- The part of a name before the dot of its extension, and the extension. -/
def splitExtension (name : List Char) : List Char × Option (List Char) :=
  let extension := (name.reverse.takeWhile (· != '.')).reverse
  match (name.reverse.dropWhile (· != '.')).reverse.dropLast with
  | [] => (name, none)
  | stem => (stem, some extension)

/-- The extension of the name. -/
def extension? (p : Path) : Option (List Char) := p.name?.bind fun name => (splitExtension name).2

/-- The path with another extension, if it ends in a name. The old extension is taken off first: if
two dots are left at the end of the path, they lead to the directory above and get no extension. -/
def withExtension (p : Path) (extension : List Char) : Path :=
  match p.name? with
  | none => p
  | some name =>
    let cs := trimmed p.text.toList
    match splitExtension name with
    | (stem, old) =>
      if stem = ['.'] ∧ old.isSome ∧ cs = p.text.toList then ⟨String.ofList (front cs ++ ['.', '.'])⟩
      else ⟨String.ofList (front cs ++ stem ++ '.' :: extension)⟩

/-- The path without its last name. An empty path and a slash have none. -/
def parent? (p : Path) : Option Path :=
  match trimmed p.text.toList with
  | [] | ['/'] => none
  | cs => some ⟨String.ofList (trimmed (front cs))⟩

/-- The path of a name in the directory that this path leads to. -/
def join (p : Path) (name : String) : Path := ⟨p.text ++ "/" ++ name⟩

/-- Cuts a text at its slashes. The first piece is the one read so far, in reverse. -/
def pieces (done : List Char) : List Char → List (List Char)
  | [] => [done.reverse]
  | c :: cs => if c = '/' then done.reverse :: pieces [] cs else pieces (c :: done) cs

/-- The parts of the path between its slashes. -/
def parts (p : Path) : List String :=
  ((pieces [] p.text.toList).filter (!·.isEmpty)).map String.ofList

def isAbsolute (p : Path) : Bool := p.text.toList.head? = some '/'

/-- Whether the path says by a slash at its end that it leads to a directory. -/
def isOpen (p : Path) : Bool := p.text.toList.getLast? = some '/'

/-- The parts to go through; a slash at the end is one more step to the directory itself. -/
def steps (p : Path) : List String := if p.isOpen then p.parts ++ ["."] else p.parts

/-- The path, its parent, the parent of that and so on; `fuel` bounds their number. -/
def chainWithin : (fuel : Nat) → Path → List Path
  | 0, _ => []
  | fuel + 1, p =>
    p :: match p.parent? with
      | none => []
      | some q => chainWithin fuel q

/-- The path and all those above it, each shorter than the one before. -/
def chain (p : Path) : List Path := chainWithin (p.text.length + 1) p

end Path

end KeyRemap
