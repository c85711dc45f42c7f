import KeyRemap.FileAccess
import KeyRemap.Script.Read
import KeyRemap.Script.Write

/-!
# Script files

Reading scripts up to a size, and writing them by way of a temporary file beside them.
-/
namespace KeyRemap

/-- Why a script file cannot be read or written. -/
inductive ScriptFileError where
  | read (path : Path) (e : FileError)
  | tooLarge (path : Path) (size limit : Nat)
  | write (e : FileAccess.ReplaceError)
  /-- A document cannot be written as a script. -/
  | save (path : Path) (e : FileAccess.ReplaceError)
deriving DecidableEq, Repr

namespace ScriptFileError

/-- How a replacement of a script failed. -/
def replaceText : FileAccess.ReplaceError → String
  | .write temporary e => "Failed to write to temporary file: " ++ temporary.text ++ ": " ++ e.text
  | .rename target e => "Failed to rename temporary file to: " ++ target.text ++ ": " ++ e.text

def text : ScriptFileError → String
  | .read path e => "Failed to read script " ++ path.text ++ ": " ++ e.text
  | .tooLarge path size limit =>
    "Script " ++ path.text ++ s!" is {size} bytes, exceeding the limit of {limit} bytes"
  | .write e => replaceText e
  | .save path e => "Failed to save script to " ++ path.text ++ ": " ++ replaceText e

end ScriptFileError

namespace ScriptFile

open FileAccess

variable {m : Type → Type} [Monad m] [FileAccess m]

/-- The text of a file of at most `limit` bytes. -/
def read (p : Path) (limit : Nat) : m (Except ScriptFileError String) := do
  match ← stat p with
  | .error e => return .error (.read p e)
  | .ok info =>
    if limit < info.size then return .error (.tooLarge p info.size limit)
    match ← readText p with
    | .error e => return .error (.read p e)
    | .ok text => return .ok text

/-- The text of a file of at most `limit` bytes, and the document that it says. -/
def load (p : Path) (limit : Nat) :
    m (Except ScriptFileError (String × Except SyntaxError Document)) := do
  match ← read p limit with
  | .error e => return .error e
  | .ok text => return .ok (text, Script.read limit text)

/-- The temporary file for a script: its extension is that of the script with another one behind
it. -/
def temporary (p : Path) : Path :=
  match p.extension? with
  | none => p.withExtension "tmp".toList
  | some extension => p.withExtension (extension ++ ".tmp".toList)

/-- Writes a text to a file. -/
def write (p : Path) (text : String) : m (Except ScriptFileError Unit) := do
  return (← FileAccess.replace (temporary p) p text).mapError .write

/-- Writes a document to a file. -/
def save (p : Path) (layout : Layout) (d : Document) : m (Except ScriptFileError Unit) := do
  return (← FileAccess.replace (temporary p) p (String.ofList (Script.write layout d))).mapError (.save p)

end ScriptFile

end KeyRemap
