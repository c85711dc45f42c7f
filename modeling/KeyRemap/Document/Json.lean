import KeyRemap.Document.Scope
import KeyRemap.Json
import KeyRemap.Word

/-!
# Documents as JSON

Every part of a document has a JSON form. Lists of comments are left out when they are empty; every
other field is written. When a value is read, lists and positions may be absent, fields that are
not known are passed over, and integers have to be in range.
-/
namespace KeyRemap

/-- A size or a place: an unsigned integer of 64 bits. -/
def Json.nat? (j : Json) : Option Nat := do
  let value ← j.int?
  if fitsUnsigned value then some value.toNat else none

/-- A timeout: a signed integer of 64 bits. -/
def Json.signed? (j : Json) : Option Int := do
  let value ← j.int?
  if fitsSigned value then some value else none

def Json.strings (texts : List String) : Json := .array (texts.map .string)

def Json.strings? : Json → Option (List String) := Json.list? Json.string?

/-- A list that is absent when it is empty. -/
def Json.strings₀ (texts : List String) : Option Json :=
  if texts.isEmpty then none else some (.strings texts)

namespace Position

def toJson (p : Position) : Json := .object [("line", .int p.line), ("column", .int p.column)]

def ofJson? (j : Json) : Option Position := do
  let fields ← j.object?
  let line ← Json.required? Json.nat? fields "line"
  let column ← Json.required? Json.nat? fields "column"
  return ⟨line, column⟩

end Position

namespace Mapping

def toJson : Mapping → Json
  | .simple source target => .object [
      ("type", .string "simple"), ("source_key", .string source), ("target_key", .string target)]
  | .tapHold source tap hold timeout => .object [
      ("type", .string "tap_hold"), ("source_key", .string source), ("tap_key", .string tap),
      ("hold_key", .string hold), ("timeout_ms", .int timeout)]
  | .sequence source keys => .object [
      ("type", .string "macro"), ("source_key", .string source), ("keys", .strings keys)]
  | .layerSwitch source layer => .object [
      ("type", .string "layer_switch"), ("source_key", .string source),
      ("target_layer", .string layer)]

def ofJson? (j : Json) : Option Mapping := do
  let fields ← if j.isSound then j.object? else none
  let kind ← Json.required? Json.string? fields "type"
  let text := Json.required? Json.string? fields
  match kind with
  | "simple" => return .simple (← text "source_key") (← text "target_key")
  | "tap_hold" =>
    return .tapHold (← text "source_key") (← text "tap_key") (← text "hold_key")
      (← Json.required? Json.signed? fields "timeout_ms")
  | "macro" =>
    return .sequence (← text "source_key") (← Json.required? Json.strings? fields "keys")
  | "layer_switch" => return .layerSwitch (← text "source_key") (← text "target_layer")
  | _ => none

end Mapping

namespace Entry

def toJson (e : Entry) : Json := .object (Json.present [
  ("mapping", some e.mapping.toJson), ("comments", Json.strings₀ e.comments),
  ("span", some e.position.toJson)])

def ofJson? (j : Json) : Option Entry := do
  let fields ← j.object?
  let mapping ← Json.required? Mapping.ofJson? fields "mapping"
  let comments ← Json.optional? Json.strings? [] fields "comments"
  let position ← Json.optional? Position.ofJson? {} fields "span"
  return ⟨mapping, comments, position⟩

end Entry

namespace LayerBlock

def toJson (l : LayerBlock) : Json := .object (Json.present [
  ("name", some (.string l.name)), ("comments", Json.strings₀ l.comments),
  ("entries", some (.array (l.entries.map Entry.toJson))),
  ("trailing_comments", Json.strings₀ l.trailing), ("span", some l.position.toJson)])

def ofJson? (j : Json) : Option LayerBlock := do
  let fields ← j.object?
  let name ← Json.required? Json.string? fields "name"
  let comments ← Json.optional? Json.strings? [] fields "comments"
  let entries ← Json.optional? (Json.list? Entry.ofJson?) [] fields "entries"
  let trailing ← Json.optional? Json.strings? [] fields "trailing_comments"
  let position ← Json.optional? Position.ofJson? {} fields "span"
  return ⟨name, comments, entries, trailing, position⟩

end LayerBlock

namespace DeviceBlock

def toJson (d : DeviceBlock) : Json := .object (Json.present [
  ("pattern", some (.string d.pattern)), ("comments", Json.strings₀ d.comments),
  ("entries", some (.array (d.entries.map Entry.toJson))),
  ("layers", some (.array (d.layers.map LayerBlock.toJson))),
  ("trailing_comments", Json.strings₀ d.trailing), ("span", some d.position.toJson)])

def ofJson? (j : Json) : Option DeviceBlock := do
  let fields ← j.object?
  let pattern ← Json.required? Json.string? fields "pattern"
  let comments ← Json.optional? Json.strings? [] fields "comments"
  let entries ← Json.optional? (Json.list? Entry.ofJson?) [] fields "entries"
  let layers ← Json.optional? (Json.list? LayerBlock.ofJson?) [] fields "layers"
  let trailing ← Json.optional? Json.strings? [] fields "trailing_comments"
  let position ← Json.optional? Position.ofJson? {} fields "span"
  return ⟨pattern, comments, entries, layers, trailing, position⟩

end DeviceBlock

namespace Document

def toJson (d : Document) : Json := .object (Json.present [
  ("entries", some (.array (d.entries.map Entry.toJson))),
  ("layers", some (.array (d.layers.map LayerBlock.toJson))),
  ("devices", some (.array (d.devices.map DeviceBlock.toJson))),
  ("trailing_comments", Json.strings₀ d.trailing)])

def ofJson? (j : Json) : Option Document := do
  let fields ← j.object?
  let entries ← Json.optional? (Json.list? Entry.ofJson?) [] fields "entries"
  let layers ← Json.optional? (Json.list? LayerBlock.ofJson?) [] fields "layers"
  let devices ← Json.optional? (Json.list? DeviceBlock.ofJson?) [] fields "devices"
  let trailing ← Json.optional? Json.strings? [] fields "trailing_comments"
  return ⟨entries, layers, devices, trailing⟩

end Document

namespace Scope

def toJson : Scope → Json
  | .global => .object [("scope", .string "global")]
  | .globalLayer name => .object [("scope", .string "global_layer"), ("target", .string name)]
  | .device index => .object [("scope", .string "device"), ("target", .int index)]
  | .deviceLayer index name => .object [
      ("scope", .string "device_layer"), ("target", .array [.int index, .string name])]

/-- The global scope has no target, or none to speak of. -/
def ofJson? (j : Json) : Option Scope := do
  let fields ← j.object?
  let kind ← Json.required? Json.string? fields "scope"
  let target ← Json.unique? fields "target"
  match kind, target with
  | "global", none | "global", some .null => some .global
  | "global_layer", some (.string name) => some (.globalLayer name)
  | "device", some target => return .device (← target.nat?)
  | "device_layer", some (.array [index, .string name]) => return .deviceLayer (← index.nat?) name
  | _, _ => none

end Scope

end KeyRemap
