/-!
# The program's names

What the program calls itself in its output and in the places it keeps files.
-/
namespace KeyRemap.Identity

/-- The name for people. -/
def displayName : String := "mapsync"

/-- The name of the command. -/
def binaryName : String := "mapsync"

def version : String := "0.4.0"

/-- The answer to a question for the version. -/
def versionText : String := binaryName ++ " " ++ version ++ "\n"

/-- The directory of the program's files, in that for settings. -/
def dataDirectory : String := "mapsync"

def description : String := "Parse, validate, format and generate key-remapping scripts"

/-- The extension of script files. -/
def scriptExtension : String := "rhai"

/-- How to call the program, for those who named no script. -/
def usageHint : String :=
  "Examples:\n  " ++ binaryName ++ " check my_keymap." ++ scriptExtension ++ "\n  " ++ binaryName ++
    " fmt --write my_keymap." ++ scriptExtension

end KeyRemap.Identity
