import KeyRemap.FileStore

/-!
# Access to files

What a program needs of the files around it, so that it can run on those of the system and on a
file store alike, and what is made of these operations: reading a text, making a directory with
those above it, and replacing a file by way of a temporary one.
-/
namespace KeyRemap

class FileAccess (m : Type → Type) where
  /-- What is known of what a path leads to. -/
  stat : Path → m (Except FileError FileInfo)
  /-- What the file at a path holds. -/
  read : Path → m (Except FileError FileContent)
  /-- Makes a path lead to a file that holds a text. -/
  write : Path → String → m (Except FileError Unit)
  /-- Moves a file, in place of the file at the other path. -/
  rename : Path → Path → m (Except FileError Unit)
  /-- Makes a directory in one that is there. -/
  createDirectory : Path → m (Except FileError Unit)

/-- Runs an operation on the store of a state. A failure leaves the store as it was. -/
def FileStore.perform (change : FileStore → Except FileError FileStore) :
    StateM FileStore (Except FileError Unit) := fun s =>
  match change s with
  | .ok t => (.ok (), t)
  | .error e => (.error e, s)

instance : FileAccess (StateM FileStore) where
  stat p := fun s => (s.stat p, s)
  read p := fun s => (s.read p, s)
  write p text := FileStore.perform (·.write p text)
  rename source target := FileStore.perform (·.rename source target)
  createDirectory p := FileStore.perform (·.createDirectory p)

namespace FileAccess

variable {m : Type → Type} [Monad m] [FileAccess m]

/-- Whether a path leads to anything. -/
def isThere (p : Path) : m Bool := do
  match ← stat p with
  | .ok _ => return true
  | .error _ => return false

def isDirectory (p : Path) : m Bool := do
  match ← stat p with
  | .ok info => return info.isDirectory
  | .error _ => return false

/-- The text that the file at a path holds. -/
def readText (p : Path) : m (Except FileError String) := do
  match ← read p with
  | .ok (.text value) => return .ok value
  | .ok (.binary _) => return .error .notText
  | .error e => return .error e

/-- Makes a directory, unless it is there. -/
def ensureDirectory (p : Path) : m (Except FileError Unit) := do
  match ← createDirectory p with
  | .ok () => return .ok ()
  | .error e => if ← isDirectory p then return .ok () else return .error e

/-- Makes the first of a list of directories, each of them in the next one. -/
def ensureChain : List Path → m (Except FileError Unit)
  | [] => return .ok ()
  | p :: ps => do
    if p.text.isEmpty then return .ok ()
    match ← ensureDirectory p with
    | .error .notFound =>
      match ← ensureChain ps with
      | .ok () => ensureDirectory p
      | .error e => return .error e
    | result => return result

/-- Makes a directory with those above it. -/
def ensureDirectories (p : Path) : m (Except FileError Unit) := ensureChain p.chain

/-- A step of a replacement that failed. -/
inductive ReplaceError where
  | write (temporary : Path) (e : FileError)
  | rename (target : Path) (e : FileError)
deriving DecidableEq, Repr

/-- Replaces a file: the text is written to a temporary file, and that is moved to its place. -/
def replace (temporary target : Path) (text : String) : m (Except ReplaceError Unit) := do
  match ← write temporary text with
  | .error e => return .error (.write temporary e)
  | .ok () =>
    match ← rename temporary target with
    | .error e => return .error (.rename target e)
    | .ok () => return .ok ()

end FileAccess

end KeyRemap
