import KeyRemap.Settings
import KeyRemap.Toml.Read
import KeyRemap.Word

/-!
# Settings as TOML

The text of a settings file: three tables, their fields in a fixed order. When a file is read,
tables and fields may be absent, and those that are not known are passed over if they are sound.
-/
namespace KeyRemap

open Text (Decimal.digits)

namespace Settings

/-- A line that gives a field its value. -/
def tomlLine (name : String) (value : List Char) : List Char :=
  name.toList ++ " = ".toList ++ value ++ ['\n']

def tomlBool (value : Bool) : List Char := if value then "true".toList else "false".toList

/-- The text of a settings file. -/
def toml (s : Settings) : List Char :=
  "[format]\n".toList ++
    tomlLine "indent_width" (Decimal.digits s.layout.indentWidth) ++
    tomlLine "max_line_length" (Decimal.digits s.layout.maxLineLength) ++
    tomlLine "collapse_blank_lines" (tomlBool s.layout.collapseBlankLines) ++
    tomlLine "keep_comments_in_place" (tomlBool s.layout.keepCommentsInPlace) ++
    "\n[sync]\n".toList ++ tomlLine "debounce_ms" (Decimal.digits s.debounce) ++
    "\n[limits]\n".toList ++ tomlLine "max_input_bytes" (Decimal.digits s.maxInputBytes)

/-- A number that settings may have: an unsigned integer of 64 bits. -/
def tomlNat? (t : Toml) : Option Nat := do
  let value ← t.int?
  if fitsUnsigned value then some value.toNat else none

def layoutOfToml? (t : Toml) : Option Layout := do
  let fields ← t.fields?
    ["indent_width", "max_line_length", "collapse_blank_lines", "keep_comments_in_place"]
  let indentWidth ← Toml.optional? tomlNat? 4 fields "indent_width"
  let maxLineLength ← Toml.optional? tomlNat? 80 fields "max_line_length"
  let collapseBlankLines ← Toml.optional? Toml.bool? true fields "collapse_blank_lines"
  let keepCommentsInPlace ← Toml.optional? Toml.bool? true fields "keep_comments_in_place"
  return { indentWidth, maxLineLength, collapseBlankLines, keepCommentsInPlace }

/-- Decodes a table that holds one number. -/
def sectionOfToml? (name : String) (default : Nat) (t : Toml) : Option Nat := do
  Toml.optional? tomlNat? default (← t.fields? [name]) name

/-- The settings that a text says, whether or not they keep to the bounds. -/
def ofToml? (text : List Char) : Option Settings := do
  let fields ← Toml.known? ["format", "sync", "limits"] (← Toml.parse? text)
  let layout ← Toml.optional? layoutOfToml? {} fields "format"
  let debounce ← Toml.optional? (sectionOfToml? "debounce_ms" 500) 500 fields "sync"
  let maxInputBytes ←
    Toml.optional? (sectionOfToml? "max_input_bytes" (1024 * 1024)) (1024 * 1024) fields "limits"
  return { layout, debounce, maxInputBytes }

end Settings

end KeyRemap
