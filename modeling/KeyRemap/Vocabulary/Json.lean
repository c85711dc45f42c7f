import KeyRemap.Vocabulary
import KeyRemap.Document.Json

/-!
# Vocabularies as JSON
-/
namespace KeyRemap

def KeyCategory.toJson (c : KeyCategory) : Json := .object [
  ("id", .string c.id), ("name", .string c.name), ("description", .string c.description)]

def KeyCategory.ofJson? (j : Json) : Option KeyCategory := do
  let fields ← j.object?
  let id ← Json.required? Json.string? fields "id"
  let name ← Json.required? Json.string? fields "name"
  let description ← Json.required? Json.string? fields "description"
  return ⟨id, name, description⟩

def Key.toJson (k : Key) : Json := .object [
  ("code", .string k.code), ("name", .string k.name), ("category", .string k.category),
  ("aliases", .strings k.aliases)]

def Key.ofJson? (j : Json) : Option Key := do
  let fields ← j.object?
  let code ← Json.required? Json.string? fields "code"
  let name ← Json.required? Json.string? fields "name"
  let category ← Json.required? Json.string? fields "category"
  let aliases ← Json.optional? Json.strings? [] fields "aliases"
  return ⟨code, name, category, aliases⟩

/-- Reads a vocabulary; its version has to be there and is not used. -/
def Vocabulary.ofJson? (j : Json) : Option Vocabulary := do
  let fields ← j.object?
  let _ ← Json.required? Json.string? fields "version"
  let categories ← Json.required? (Json.list? KeyCategory.ofJson?) fields "categories"
  let keys ← Json.required? (Json.list? Key.ofJson?) fields "keys"
  return ⟨keys, categories⟩

end KeyRemap
