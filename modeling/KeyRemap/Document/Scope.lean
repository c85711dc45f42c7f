import KeyRemap.Document

/-!
# Scopes

The addresses of the lists of entries in a document. A device block is addressed by its index,
since patterns may repeat, and a layer by its name in its parent: the first of that name is meant.
-/
namespace KeyRemap

/-- The address of a list of entries. -/
inductive Scope where
  | global
  | globalLayer (name : String)
  | device (index : Nat)
  | deviceLayer (index : Nat) (name : String)
deriving DecidableEq, Repr

/-- Changes the first member that satisfies a test. -/
def updateFirst {α : Type} (test : α → Bool) (change : α → α) : List α → List α
  | [] => []
  | a :: as => if test a then change a :: as else a :: updateFirst test change as

namespace DeviceBlock

/-- The first layer of a name. -/
def layer? (d : DeviceBlock) (name : String) : Option LayerBlock := d.layers.find? (·.name = name)

/-- The block with other entries in the first layer of a name. -/
def setLayerEntries (d : DeviceBlock) (name : String) (entries : List Entry) : DeviceBlock :=
  { d with layers := updateFirst (·.name = name) ({ · with entries := entries }) d.layers }

end DeviceBlock

namespace Document

/-- The first layer of a name outside any device block. -/
def layer? (d : Document) (name : String) : Option LayerBlock := d.layers.find? (·.name = name)

/-- The entries at an address, if it leads anywhere. -/
def entriesAt? (d : Document) : Scope → Option (List Entry)
  | .global => some d.entries
  | .globalLayer name => (d.layer? name).map (·.entries)
  | .device index => (d.devices[index]?).map (·.entries)
  | .deviceLayer index name => do
    let block ← d.devices[index]?
    let layer ← block.layer? name
    some layer.entries

/-- The document with other entries at an address. -/
def setEntriesAt (d : Document) (entries : List Entry) : Scope → Document
  | .global => { d with entries := entries }
  | .globalLayer name =>
    { d with layers := updateFirst (·.name = name) ({ · with entries := entries }) d.layers }
  | .device index => { d with devices := d.devices.modify index ({ · with entries := entries }) }
  | .deviceLayer index name =>
    { d with devices := d.devices.modify index (·.setLayerEntries name entries) }

/-- How messages name a device block. -/
def describeDevice (d : Document) (index : Nat) : String :=
  match d.devices[index]? with
  | some block => "device \"" ++ block.pattern ++ "\""
  | none => s!"device #{index}"

/-- How messages name a scope. -/
def describe (d : Document) : Scope → String
  | .global => "global scope"
  | .globalLayer name => "layer \"" ++ name ++ "\""
  | .device index => d.describeDevice index
  | .deviceLayer index name => d.describeDevice index ++ " layer \"" ++ name ++ "\""

/-- Every scope with its entries, in document order. -/
def scopes (d : Document) : List (Scope × List Entry) :=
  (.global, d.entries) ::
    d.layers.map (fun l => (.globalLayer l.name, l.entries)) ++
    (d.devices.zipIdx.flatMap fun (block, index) =>
      (.device index, block.entries) ::
        block.layers.map fun l => (.deviceLayer index l.name, l.entries))

/-- The number of mapping statements. -/
def mappingCount (d : Document) : Nat := (d.scopes.flatMap (·.2)).length

end Document

end KeyRemap
