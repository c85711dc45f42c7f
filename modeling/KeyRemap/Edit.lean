import KeyRemap.Document.Scope
import KeyRemap.Vocabulary.Standard

/-!
# Edits

Changes of a document by address. An edit that cannot be made says why, and the document stays as
it was. Keys are compared by what they mean, so an alias finds a mapping of its key.
-/
namespace KeyRemap

/-- A change of a document. A layer's parent is the device block of an index, or none. -/
inductive Edit where
  /-- Replaces the mapping for the same key in a scope, or appends one. -/
  | setMapping (scope : Scope) (mapping : Mapping)
  | removeMapping (scope : Scope) (source : String)
  | addLayer (parent : Option Nat) (name : String)
  /-- Renames a layer and the switches that lead to it. -/
  | renameLayer (parent : Option Nat) (source target : String)
  | removeLayer (parent : Option Nat) (name : String)
  | addDevice (pattern : String)
  | removeDevice (index : Nat)
  | replace (document : Document)
deriving DecidableEq, Repr

/-- Why an edit cannot be made. -/
inductive EditError where
  | deviceNotFound (index : Nat)
  | layerNotFound (name : String)
  | layerExists (name : String)
  | mappingNotFound (source : String)
  | emptySequence (source : String)
deriving DecidableEq, Repr

def EditError.message : EditError → String
  | .deviceNotFound index => s!"No device block at index {index}"
  | .layerNotFound name => "Layer '" ++ name ++ "' not found"
  | .layerExists name => "Layer '" ++ name ++ "' already exists"
  | .mappingNotFound source => "No mapping for source key '" ++ source ++ "'"
  | .emptySequence source => "Macro for '" ++ source ++ "' has no keys"

/-- An error as data names it. -/
def EditError.tag : EditError → String
  | .deviceNotFound _ => "DeviceNotFound"
  | .layerNotFound _ => "LayerNotFound"
  | .layerExists _ => "LayerExists"
  | .mappingNotFound _ => "MappingNotFound"
  | .emptySequence _ => "EmptyMacro"

/-- Whether two names mean one key. -/
def sameKey (a b : String) : Bool :=
  Vocabulary.standard.identify a = Vocabulary.standard.identify b

/-- Removes the first member that satisfies a test. -/
def removeFirst {α : Type} (test : α → Bool) : List α → List α
  | [] => []
  | a :: as => if test a then as else a :: removeFirst test as

/-- The entries with a mapping in place of the first one for its key, or at the end. -/
def putMapping (m : Mapping) (entries : List Entry) : List Entry :=
  let test (e : Entry) : Bool := sameKey e.mapping.source m.source
  if entries.any test then updateFirst test ({ · with mapping := m }) entries
  else entries ++ [{ mapping := m }]

/-- The mapping with a switch to one layer turned to another. -/
def Mapping.retarget (source target : String) : Mapping → Mapping
  | .layerSwitch key layer => .layerSwitch key (if layer = source then target else layer)
  | m => m

def Entry.retarget (source target : String) (e : Entry) : Entry :=
  { e with mapping := e.mapping.retarget source target }

def LayerBlock.retarget (source target : String) (l : LayerBlock) : LayerBlock :=
  { l with entries := l.entries.map (·.retarget source target) }

def DeviceBlock.retarget (source target : String) (b : DeviceBlock) : DeviceBlock :=
  { b with
    entries := b.entries.map (·.retarget source target)
    layers := b.layers.map (·.retarget source target) }

/-- Whether the block declares a layer of this name. -/
def DeviceBlock.declares (b : DeviceBlock) (name : String) : Bool := b.layers.any (·.name = name)

namespace Document

/-- The entries at an address, or why it leads nowhere. -/
def entriesAt (d : Document) (scope : Scope) : Except EditError (List Entry) :=
  match d.entriesAt? scope with
  | some entries => .ok entries
  | none =>
    match scope with
    | .global => .error (.layerNotFound "")
    | .globalLayer name => .error (.layerNotFound name)
    | .device index => .error (.deviceNotFound index)
    | .deviceLayer index name =>
      if index < d.devices.length then .error (.layerNotFound name)
      else .error (.deviceNotFound index)

/-- The layers of a parent, or why there is none. -/
def layersOf (d : Document) : Option Nat → Except EditError (List LayerBlock)
  | none => .ok d.layers
  | some index =>
    match d.devices[index]? with
    | some b => .ok b.layers
    | none => .error (.deviceNotFound index)

/-- The document with other layers in a parent. -/
def setLayersOf (d : Document) (layers : List LayerBlock) : Option Nat → Document
  | none => { d with layers := layers }
  | some index => { d with devices := d.devices.modify index ({ · with layers := layers }) }

/-- Turns the switches that lead to a renamed layer. The layer has its new name already. A switch
inside a device block that still declares the old name leads to that block's layer. Switches
elsewhere lead to a layer of a device block only if no other layer has the name. -/
def retarget (d : Document) (parent : Option Nat) (source target : String) : Document :=
  let outside := parent.isNone ||
    (!d.layers.any (·.name = source) && !d.devices.any (·.declares source))
  let turn (p : DeviceBlock × Nat) : DeviceBlock :=
    if parent = some p.2 || (outside && !p.1.declares source) then p.1.retarget source target
    else p.1
  { d with
    entries := if outside then d.entries.map (·.retarget source target) else d.entries
    layers := if outside then d.layers.map (·.retarget source target) else d.layers
    devices := d.devices.zipIdx.map turn }

end Document

namespace Edit

/-- The document after an edit. -/
def apply (d : Document) : Edit → Except EditError Document
  | .setMapping scope mapping =>
    if mapping.isEmptySequence then .error (.emptySequence mapping.source)
    else (d.entriesAt scope).map fun entries => d.setEntriesAt (putMapping mapping entries) scope
  | .removeMapping scope source => do
    let entries ← d.entriesAt scope
    let test (e : Entry) : Bool := sameKey e.mapping.source source
    if entries.any test then return d.setEntriesAt (removeFirst test entries) scope
    else throw (.mappingNotFound source)
  | .addLayer parent name => do
    let layers ← d.layersOf parent
    if layers.any (·.name = name) then throw (.layerExists name)
    else return d.setLayersOf (layers ++ [{ name := name }]) parent
  | .renameLayer parent source target => do
    let layers ← d.layersOf parent
    if source ≠ target ∧ layers.any (·.name = target) then throw (.layerExists target)
    else if layers.any (·.name = source) then
      let renamed := updateFirst (·.name = source) ({ · with name := target }) layers
      return (d.setLayersOf renamed parent).retarget parent source target
    else throw (.layerNotFound source)
  | .removeLayer parent name => do
    let layers ← d.layersOf parent
    if layers.any (·.name = name) then
      return d.setLayersOf (removeFirst (·.name = name) layers) parent
    else throw (.layerNotFound name)
  | .addDevice pattern => .ok { d with devices := d.devices ++ [{ pattern := pattern }] }
  | .removeDevice index =>
    if index < d.devices.length then .ok { d with devices := d.devices.eraseIdx index }
    else .error (.deviceNotFound index)
  | .replace document => .ok document

end Edit

end KeyRemap
