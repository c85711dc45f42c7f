import KeyRemap.Path

/-!
# File stores

The files and directories below a working directory, and what can be done with them. An address is
the list of the names on the way down; every operation looks up the addresses of its paths first.
-/
namespace KeyRemap

/-- What a file holds: a text, or bytes that are none. -/
inductive FileContent where
  | text (value : String)
  | binary (bytes : List UInt8)
deriving DecidableEq, Repr

/-- The number of bytes. -/
def FileContent.size : FileContent → Nat
  | .text value => value.utf8ByteSize
  | .binary bytes => bytes.length

/-- Why something cannot be done with a file or directory. -/
inductive FileError where
  | notFound | busy | exists | notDirectory | isDirectory
  /-- A name, or the whole path, is too long. -/
  | tooLong
  /-- The path has a character that no path may have. -/
  | nullCharacter
  /-- The file does not hold a text. -/
  | notText
  | other (message : String)
deriving DecidableEq, Repr

def FileError.text : FileError → String
  | .notFound => "No such file or directory (os error 2)"
  | .busy => "Device or resource busy (os error 16)"
  | .exists => "File exists (os error 17)"
  | .notDirectory => "Not a directory (os error 20)"
  | .isDirectory => "Is a directory (os error 21)"
  | .tooLong => "File name too long (os error 36)"
  | .nullCharacter => "file name contained an unexpected NUL byte"
  | .notText => "stream did not contain valid UTF-8"
  | .other message => message

/-- What is known of a file or directory without reading it. -/
structure FileInfo where
  isDirectory : Bool
  size : Nat
deriving DecidableEq, Repr

/-- The names on the way to a file or directory. -/
abbrev Address := List String

inductive FileNode where
  | file (content : FileContent)
  | directory
deriving DecidableEq, Repr

/-- Files and directories by address. The working directory has the empty address and is always
there. -/
structure FileStore where
  nodes : List (Address × FileNode) := []
deriving Repr, Inhabited

namespace FileStore

/-- What is at an address. -/
def node? (s : FileStore) (a : Address) : Option FileNode :=
  if a = [] then some .directory else (s.nodes.find? (·.1 = a)).map (·.2)

/-- The store with something at an address, in place of what was there. -/
def put (s : FileStore) (a : Address) (n : FileNode) : FileStore :=
  ⟨(a, n) :: s.nodes.filter (·.1 ≠ a)⟩

/-- The store with nothing at an address. -/
def erase (s : FileStore) (a : Address) : FileStore := ⟨s.nodes.filter (·.1 ≠ a)⟩

@[simp] theorem node?_nil (s : FileStore) : s.node? [] = some .directory := rfl

@[simp] theorem node?_put_self {s : FileStore} {a : Address} (h : a ≠ []) (n : FileNode) :
    (s.put a n).node? a = some n := by
  simp [node?, put, h]

theorem find?_filter_ne (ns : List (Address × FileNode)) {a b : Address} (h : b ≠ a) :
    (ns.filter (·.1 ≠ a)).find? (·.1 = b) = ns.find? (·.1 = b) := by
  induction ns with
  | nil => rfl
  | cons n ns ih =>
    by_cases hb : n.1 = b
    · have ha : n.1 ≠ a := fun e => h (hb ▸ e)
      rw [List.filter_cons_of_pos (by simpa using ha),
        List.find?_cons_of_pos (by simpa using hb), List.find?_cons_of_pos (by simpa using hb)]
    · by_cases ha : n.1 = a
      · rw [List.filter_cons_of_neg (by simpa using ha),
          List.find?_cons_of_neg (by simpa using hb), ih]
      · rw [List.filter_cons_of_pos (by simpa using ha),
          List.find?_cons_of_neg (by simpa using hb), List.find?_cons_of_neg (by simpa using hb),
          ih]

theorem node?_put_of_ne {s : FileStore} {a b : Address} (h : b ≠ a) (n : FileNode) :
    (s.put a n).node? b = s.node? b := by
  unfold node? put
  rw [List.find?_cons_of_neg (by simpa using fun e => h e.symm), find?_filter_ne _ h]

theorem node?_erase_self {s : FileStore} {a : Address} (h : a ≠ []) : (s.erase a).node? a = none := by
  simp [node?, erase, h]

theorem node?_erase_of_ne {s : FileStore} {a b : Address} (h : b ≠ a) :
    (s.erase a).node? b = s.node? b := by
  unfold node? erase
  rw [find?_filter_ne _ h]

/-- The greatest number of bytes of a name. -/
def longestName : Nat := 255

/-- The greatest number of bytes of a path. -/
def longestPath : Nat := 4095

/-- The address that is reached from an address by steps, each of them out of a directory. Nothing
need be there. -/
def walk (s : FileStore) (a : Address) : List String → Except FileError Address
  | [] => .ok a
  | step :: steps =>
    match s.node? a with
    | none => .error .notFound
    | some (.file _) => .error .notDirectory
    | some .directory =>
      if step = "." then s.walk a steps
      else if step = ".." then s.walk a.dropLast steps
      else if longestName < step.utf8ByteSize then .error .tooLong
      else s.walk (a ++ [step]) steps

/-- The address that the steps of a path lead to. A path that does not begin in the working
directory leads nowhere. -/
def follow (s : FileStore) (p : Path) (steps : List String) : Except FileError Address :=
  if p.text.toList.contains '\x00' then .error .nullCharacter
  else if longestPath < p.text.utf8ByteSize then .error .tooLong
  else if p.isAbsolute || steps.isEmpty then .error .notFound
  else s.walk [] steps

/-- The address of a path. -/
def locate (s : FileStore) (p : Path) : Except FileError Address := s.follow p p.steps

/-- What a path leads to. -/
def find (s : FileStore) (p : Path) : Except FileError FileNode := do
  match s.node? (← s.locate p) with
  | some n => .ok n
  | none => .error .notFound

/-- The size of every directory. -/
def directorySize : Nat := 4096

def stat (s : FileStore) (p : Path) : Except FileError FileInfo := do
  match ← s.find p with
  | .file content => .ok ⟨false, content.size⟩
  | .directory => .ok ⟨true, directorySize⟩

def read (s : FileStore) (p : Path) : Except FileError FileContent := do
  match ← s.find p with
  | .file content => .ok content
  | .directory => .error .isDirectory

/-- Makes a path lead to a file that holds a text. -/
def write (s : FileStore) (p : Path) (text : String) : Except FileError FileStore := do
  let a ← s.locate p
  match s.node? a with
  | some .directory => .error .isDirectory
  | _ => .ok (s.put a (.file (.text text)))

/-- Moves a file to where another path leads, in place of the file that is there. -/
def rename (s : FileStore) (source target : Path) : Except FileError FileStore := do
  let a ← s.locate source
  match s.node? a with
  | none => .error .notFound
  | some .directory => .error .isDirectory
  | some (.file content) =>
    let b ← s.follow target target.parts
    if [some ".", some ".."].contains target.parts.getLast? then .error .busy
    else if target.isOpen then .error .notDirectory
    else
      match s.node? b with
      | some .directory => .error .isDirectory
      | _ => .ok ((s.erase a).put b (.file content))

/-- Makes a directory where there is nothing. -/
def createDirectory (s : FileStore) (p : Path) : Except FileError FileStore := do
  let a ← s.follow p p.parts
  match s.node? a with
  | some _ => .error .exists
  | none => .ok (s.put a .directory)

/-- The files, each with its path. -/
def files (s : FileStore) : List (Path × FileContent) :=
  s.nodes.filterMap fun (a, n) =>
    match n with
    | .file content => some (⟨"/".intercalate a⟩, content)
    | .directory => none

end FileStore

end KeyRemap
