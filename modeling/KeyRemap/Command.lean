import KeyRemap.Path
import KeyRemap.Settings

/-!
# Commands

What the program can be asked to do, and what it answers: texts for the two output channels, and
how it failed if it did.
-/
namespace KeyRemap

/-- New values for some of the settings. -/
structure SettingsChange where
  indentWidth : Option Nat := none
  maxLineLength : Option Nat := none
  collapseBlankLines : Option Bool := none
  keepCommentsInPlace : Option Bool := none
  debounce : Option Nat := none
  maxInputBytes : Option Nat := none
deriving DecidableEq, Repr

namespace SettingsChange

/-- Whether there are no new values. -/
def isEmpty (c : SettingsChange) : Bool := c = {}

/-- Settings with the new values in place of theirs. -/
def apply (c : SettingsChange) (s : Settings) : Settings where
  layout := {
    indentWidth := c.indentWidth.getD s.layout.indentWidth
    maxLineLength := c.maxLineLength.getD s.layout.maxLineLength
    collapseBlankLines := c.collapseBlankLines.getD s.layout.collapseBlankLines
    keepCommentsInPlace := c.keepCommentsInPlace.getD s.layout.keepCommentsInPlace }
  debounce := c.debounce.getD s.debounce
  maxInputBytes := c.maxInputBytes.getD s.maxInputBytes

@[simp] theorem apply_empty (s : Settings) : ({} : SettingsChange).apply s = s := rfl

end SettingsChange

/-- What becomes of a script when it is laid out. -/
inductive FormatMode where
  | print
  /-- It takes the place of the file. -/
  | write
  /-- It is compared with the file. -/
  | check
deriving DecidableEq, Repr

inductive Command where
  | format (file : Path) (mode : FormatMode)
  | check (file : Path) (json strict : Bool)
  | inspect (file : Path) (device : Option String) (json : Bool)
  | render (input : Path) (output : Option Path) (validate : Bool)
  | keys (query category : Option String) (json : Bool)
  | showSettings (json : Bool)
  | locateSettings
  | changeSettings (change : SettingsChange)
deriving DecidableEq, Repr

/-- A command, with the settings file that is to be used instead of that of the user. -/
structure Invocation where
  settingsFile : Option Path
  command : Command
deriving DecidableEq, Repr

/-- How a command failed, with the message for the user. -/
inductive Failure where
  /-- The input is not as it should be. -/
  | rejected (message : String)
  /-- The input is not a script. -/
  | unreadable (message : String)
  /-- A file or the settings cannot be used. -/
  | inaccessible (message : String)
deriving DecidableEq, Repr

namespace Failure

/-- The exit code of the program. -/
def code : Failure → Nat
  | .rejected _ => 1
  | .unreadable _ => 2
  | .inaccessible _ => 3

/-- The message as the program prints it. -/
def report : Failure → String
  | .rejected message | .inaccessible message => "Error: " ++ message ++ "\n"
  | .unreadable message => if message.endsWith "\n" then message else message ++ "\n"

end Failure

/-- What a command answers. -/
structure Outcome where
  output : String := ""
  /-- What precedes the message of a failure. -/
  notes : String := ""
  failure : Option Failure := none
deriving DecidableEq, Repr

namespace Outcome

def code (o : Outcome) : Nat :=
  match o.failure with
  | none => 0
  | some f => f.code

/-- The text for the channel of errors. -/
def errors (o : Outcome) : String :=
  match o.failure with
  | none => o.notes
  | some f => o.notes ++ f.report

end Outcome

end KeyRemap
