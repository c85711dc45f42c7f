/-!
# TOML values

Values of configuration files and the rules by which the statements of a file build them up. A
table remembers how it came about, since that decides whether later statements may add to it. A
number may have the look of one and yet no value; it does no harm in a list that is read only in
part, but is not passed over in a table.
-/
namespace KeyRemap

/-- How a table came about. -/
inductive TableOrigin where
  /-- Only tables inside it have been declared. -/
  | implied
  /-- It has a header of its own, or is the whole file. -/
  | declared
  /-- It is a part of a dotted key. -/
  | dotted
  /-- It is written between braces, and complete. -/
  | braced
deriving DecidableEq, Repr

inductive Toml where
  | bool (value : Bool)
  | int (value : Int)
  | string (value : String)
  /-- A number that is no integer. -/
  | number
  /-- A date, a time, or both. -/
  | moment
  /-- A number that has no value, since it is too large or not made of digits. -/
  | flawed
  | array (items : List Toml)
  /-- The tables of one name with headers in double brackets. Statements add to the last. -/
  | tables (earlier : List (List (String × Toml))) (last : List (String × Toml))
  | table (origin : TableOrigin) (fields : List (String × Toml))
deriving Inhabited

namespace Toml

/-- A table that is being built. -/
structure Open where
  origin : TableOrigin
  fields : List (String × Toml)

namespace Open

def get? (t : Open) (name : String) : Option Toml := (t.fields.find? (·.1 = name)).map (·.2)

/-- Adds a field, or replaces the one of that name. -/
def set (t : Open) (name : String) (value : Toml) : Open :=
  if t.fields.any (·.1 = name) then
    { t with fields := t.fields.map fun f => if f.1 = name then (name, value) else f }
  else { t with fields := t.fields ++ [(name, value)] }

/-- Changes the table that a path of names leads to. Tables that are missing on the way are made;
those that are complete are not entered, nor, on the way of a dotted key, those that have a header
in single brackets. -/
def change? (dotted : Bool) (action : Open → Option Open) : List String → Open → Option Open
  | [], t => action t
  | name :: path, t =>
    match t.get? name with
    | none => do
      let inner ← change? dotted action path ⟨if dotted then .dotted else .implied, []⟩
      some (t.set name (.table inner.origin inner.fields))
    | some (.table .braced _) => none
    | some (.table .declared fields) =>
      if dotted then none
      else do
        let inner ← change? dotted action path ⟨.declared, fields⟩
        some (t.set name (.table inner.origin inner.fields))
    | some (.table origin fields) => do
      let inner ← change? dotted action path ⟨origin, fields⟩
      some (t.set name (.table inner.origin inner.fields))
    | some (.tables earlier last) => do
      let inner ← change? dotted action path ⟨.declared, last⟩
      some (t.set name (.tables earlier inner.fields))
    | some _ => none

/-- Adds a field that must not be there yet. -/
def add? (name : String) (value : Toml) (t : Open) : Option Open :=
  if (t.get? name).isSome then none else some (t.set name value)

/-- The statement that gives a key a value: the names of the key but for the last, that name, and
the value. -/
def assign? (path : List String) (name : String) (value : Toml) (t : Open) : Option Open :=
  if path.isEmpty then t.add? name value
  else
    t.change? true (fun t => if t.origin = .dotted then t.add? name value else none) path

/-- The header of a table. -/
def declare? (name : String) (t : Open) : Option Open :=
  match t.get? name with
  | none => some (t.set name (.table .declared []))
  | some (.table .implied fields) => some (t.set name (.table .declared fields))
  | some _ => none

/-- The header of one more table of a name. -/
def extend? (name : String) (t : Open) : Option Open :=
  match t.get? name with
  | none => some (t.set name (.tables [] []))
  | some (.tables earlier last) => some (t.set name (.tables (earlier ++ [last]) []))
  | some _ => none

end Open

mutual

/-- Whether no number in a value is flawed. -/
def isSound : Toml → Bool
  | .flawed => false
  | .array items => areSound items
  | .tables earlier last => areSoundTables earlier && areSoundFields last
  | .table _ fields => areSoundFields fields
  | _ => true

def areSound : List Toml → Bool
  | [] => true
  | t :: ts => isSound t && areSound ts

def areSoundFields : List (String × Toml) → Bool
  | [] => true
  | (_, t) :: fs => isSound t && areSoundFields fs

def areSoundTables : List (List (String × Toml)) → Bool
  | [] => true
  | fs :: ts => areSoundFields fs && areSoundTables ts

end

/-- The fields, if those that do not have one of the names, and are passed over, are sound. -/
def known? (names : List String) (fields : List (String × Toml)) :
    Option (List (String × Toml)) :=
  if areSoundFields (fields.filter fun f => !names.contains f.1) then some fields else none

/-- The fields of a table, of which those with the given names are of use. A list stands for the
table of its members under these names, in that order; a date or time for one without them. -/
def fields? (names : List String) : Toml → Option (List (String × Toml))
  | .table _ fields => known? names fields
  | .array items => some (names.zip items)
  | .tables earlier last =>
    some (names.zip ((earlier ++ [last]).map fun fields => .table .declared fields))
  | .moment => some []
  | _ => none

/-- Decodes a field that may be absent. -/
def optional? {α : Type} (decode : Toml → Option α) (default : α) (fields : List (String × Toml))
    (name : String) : Option α :=
  match fields.find? (·.1 = name) with
  | none => some default
  | some field => decode field.2

def bool? : Toml → Option Bool
  | .bool value => some value
  | _ => none

def int? : Toml → Option Int
  | .int value => some value
  | _ => none

end Toml

end KeyRemap
