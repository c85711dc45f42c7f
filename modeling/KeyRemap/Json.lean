/-!
# JSON values

Values as a text gives them: the fields of an object keep their order and their repetitions.
Numbers are told apart by how they are written, since a number with a fraction or an exponent is
never taken for an integer. A text may keep to the grammar and still have parts that stand for
nothing; they do no harm where they are passed over, and a value without such parts is sound.
-/
namespace KeyRemap

inductive Json where
  | null
  | bool (value : Bool)
  | int (value : Int)
  /-- A number that is not written as an integer of 64 bits. -/
  | decimal (raw : String)
  | string (value : String)
  | array (items : List Json)
  | object (fields : List (String × Json))
  /-- A part that stands for no value: a string with half a surrogate pair, an object with such a
  name, a number that is too large, or an array or object that is nested too deep. -/
  | flawed
deriving Inhabited

namespace Json

mutual

/-- Whether no part of a value is flawed. -/
def isSound : Json → Bool
  | .flawed => false
  | .array items => areSound items
  | .object fields => areSoundFields fields
  | _ => true

def areSound : List Json → Bool
  | [] => true
  | j :: js => isSound j && areSound js

def areSoundFields : List (String × Json) → Bool
  | [] => true
  | (_, j) :: fs => isSound j && areSoundFields fs

end

/-- The value of a field that occurs at most once; a repeated field is an error. -/
def unique? (fields : List (String × Json)) (name : String) : Option (Option Json) :=
  match fields.filter (·.1 = name) with
  | [] => some none
  | [field] => some (some field.2)
  | _ => none

/-- Decodes a field that has to be there. -/
def required? {α : Type} (decode : Json → Option α) (fields : List (String × Json))
    (name : String) : Option α := do
  decode (← (← unique? fields name))

/-- Decodes a field that may be absent. -/
def optional? {α : Type} (decode : Json → Option α) (default : α) (fields : List (String × Json))
    (name : String) : Option α := do
  match ← unique? fields name with
  | none => some default
  | some value => decode value

def string? : Json → Option String
  | .string value => some value
  | _ => none

def bool? : Json → Option Bool
  | .bool value => some value
  | _ => none

def int? : Json → Option Int
  | .int value => some value
  | _ => none

def array? : Json → Option (List Json)
  | .array items => some items
  | _ => none

def object? : Json → Option (List (String × Json))
  | .object fields => some fields
  | _ => none

/-- Decodes every member of an array. -/
def list? {α : Type} (decode : Json → Option α) (j : Json) : Option (List α) := do
  (← j.array?).mapM decode

/-- The list of fields with those whose value is missing left out. -/
def present (fields : List (String × Option Json)) : List (String × Json) :=
  fields.filterMap fun (name, value) => value.map (name, ·)

end Json

end KeyRemap
