import KeyRemap.FileAccess
import KeyRemap.Identity
import KeyRemap.Settings.Toml

/-!
# The settings file

Settings are kept in a file of their own, in the directory that the user has for settings. Without
a file the defaults hold. Neither a file nor what is written to one may be out of bounds.
-/
namespace KeyRemap

/-- Why settings cannot be loaded or saved. -/
inductive SettingsError where
  /-- The user has no directory for settings. -/
  | noHome
  | read (path : Path) (e : FileError)
  | parse (path : Path)
  /-- A setting in the file is out of bounds. -/
  | invalid (path : Path) (fault : Settings.Fault)
  /-- A setting that is to be saved is out of bounds. -/
  | unfit (fault : Settings.Fault)
  | createDirectory (path : Path) (e : FileError)
  | write (e : FileAccess.ReplaceError)
deriving DecidableEq, Repr

def SettingsError.text : SettingsError → String
  | .noHome => "Failed to determine config directory"
  | .read path e => "Failed to read config file: " ++ path.text ++ ": " ++ e.text
  | .parse path => "Failed to parse config file: " ++ path.text
  | .invalid path fault => "Invalid config file: " ++ path.text ++ ": " ++ fault.text
  | .unfit fault => fault.text
  | .createDirectory path e =>
    "Failed to create config directory: " ++ path.text ++ ": " ++ e.text
  | .write (.write temporary e) =>
    "Failed to write temp config file: " ++ temporary.text ++ ": " ++ e.text
  | .write (.rename target e) =>
    "Failed to rename temp config file to: " ++ target.text ++ ": " ++ e.text

namespace Settings

open FileAccess

/-- The directory of the settings file in that for the settings of all programs. -/
def directory (home : Path) : Path := home.join Identity.dataDirectory

/-- The settings file. -/
def defaultPath (home : Path) : Path := (directory home).join "config.toml"

/-- The temporary file for a settings file. -/
def temporary (p : Path) : Path := p.withExtension "toml.tmp".toList

variable {m : Type → Type} [Monad m] [FileAccess m]

/-- The settings in a file. -/
def loadFrom (p : Path) : m (Except SettingsError Settings) := do
  match ← readText p with
  | .error e => return .error (.read p e)
  | .ok text =>
    match ofToml? text.toList with
    | none => return .error (.parse p)
    | some s =>
      match s.fault? with
      | some fault => return .error (.invalid p fault)
      | none => return .ok s

/-- The settings of the user: those in the file, or the defaults if there is none. -/
def load (home : Option Path) : m (Except SettingsError Settings) := do
  match home with
  | none => return .error .noHome
  | some home => if ← isThere (defaultPath home) then loadFrom (defaultPath home) else return .ok {}

/-- Writes settings to a file. -/
def saveTo (s : Settings) (p : Path) : m (Except SettingsError Unit) := do
  match s.fault? with
  | some fault => return .error (.unfit fault)
  | none => return (← replace (temporary p) p (String.ofList s.toml)).mapError .write

/-- Writes settings to the file of the user. -/
def save (s : Settings) (home : Option Path) : m (Except SettingsError Unit) := do
  match home with
  | none => return .error .noHome
  | some home =>
    match ← ensureDirectories (directory home) with
    | .error e => return .error (.createDirectory (directory home) e)
    | .ok () => s.saveTo (defaultPath home)

end Settings

end KeyRemap
