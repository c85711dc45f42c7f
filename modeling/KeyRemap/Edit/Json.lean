import KeyRemap.Edit
import KeyRemap.Document.Json

/-!
# Edits as JSON
-/
namespace KeyRemap.Edit

/-- The index of a parent: null and an absent field both mean none. -/
def parentOf? (fields : List (String × Json)) : Option (Option Nat) :=
  Json.optional? (fun
    | .null => some none
    | j => j.nat?.map some) none fields "device"

def ofJson? (j : Json) : Option Edit := do
  let fields ← j.object?
  let op ← Json.required? Json.string? fields "op"
  let text := Json.required? Json.string? fields
  let scope := Json.required? Scope.ofJson? fields "scope"
  match op with
  | "set_mapping" =>
    return .setMapping (← scope) (← Json.required? Mapping.ofJson? fields "mapping")
  | "remove_mapping" => return .removeMapping (← scope) (← text "source_key")
  | "add_layer" => return .addLayer (← parentOf? fields) (← text "name")
  | "rename_layer" => return .renameLayer (← parentOf? fields) (← text "from") (← text "to")
  | "remove_layer" => return .removeLayer (← parentOf? fields) (← text "name")
  | "add_device" => return .addDevice (← text "pattern")
  | "remove_device" => return .removeDevice (← Json.required? Json.nat? fields "index")
  | "replace" => return .replace (← Document.ofJson? j)
  | _ => none

end KeyRemap.Edit
