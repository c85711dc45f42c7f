import KeyRemap.Document.Json
import KeyRemap.Settings

/-!
# Settings as JSON

Every field may be absent when settings are read, and all are written.
-/
namespace KeyRemap

namespace Layout

def toJson (l : Layout) : Json := .object [
  ("indent_width", .int l.indentWidth), ("max_line_length", .int l.maxLineLength),
  ("collapse_blank_lines", .bool l.collapseBlankLines),
  ("keep_comments_in_place", .bool l.keepCommentsInPlace)]

def ofJson? (j : Json) : Option Layout := do
  let fields ← j.object?
  let indentWidth ← Json.optional? Json.nat? 4 fields "indent_width"
  let maxLineLength ← Json.optional? Json.nat? 80 fields "max_line_length"
  let collapseBlankLines ← Json.optional? Json.bool? true fields "collapse_blank_lines"
  let keepCommentsInPlace ← Json.optional? Json.bool? true fields "keep_comments_in_place"
  return { indentWidth, maxLineLength, collapseBlankLines, keepCommentsInPlace }

end Layout

namespace Settings

def toJson (s : Settings) : Json := .object [
  ("format", s.layout.toJson), ("sync", .object [("debounce_ms", .int s.debounce)]),
  ("limits", .object [("max_input_bytes", .int s.maxInputBytes)])]

/-- Decodes a section that holds one number. -/
def sectionNat? (name : String) (default : Nat) (j : Json) : Option Nat := do
  Json.optional? Json.nat? default (← j.object?) name

def ofJson? (j : Json) : Option Settings := do
  let fields ← j.object?
  let layout ← Json.optional? Layout.ofJson? {} fields "format"
  let debounce ← Json.optional? (sectionNat? "debounce_ms" 500) 500 fields "sync"
  let maxInputBytes ←
    Json.optional? (sectionNat? "max_input_bytes" (1024 * 1024)) (1024 * 1024) fields "limits"
  return { layout, debounce, maxInputBytes }

end Settings

end KeyRemap
