import KeyRemap.Mapping
import KeyRemap.Position

/-!
# Documents

What a script says: mappings, layers of mappings, and blocks of mappings and layers for the devices
that a pattern describes. Comments belong to the statement or header they stand above, or to the
end of the block or the document. Positions are provenance only: documents agree when they are
equal up to positions.
-/
namespace KeyRemap

/-- A mapping statement with the comments above it. -/
structure Entry where
  mapping : Mapping
  comments : List String := []
  position : Position := {}
deriving DecidableEq, Repr

/-- A named layer. -/
structure LayerBlock where
  name : String
  comments : List String := []
  entries : List Entry := []
  /-- The comments before the closing brace. -/
  trailing : List String := []
  position : Position := {}
deriving DecidableEq, Repr

/-- The mappings and layers for the devices that a pattern describes. -/
structure DeviceBlock where
  pattern : String
  comments : List String := []
  entries : List Entry := []
  layers : List LayerBlock := []
  /-- The comments before the closing brace. -/
  trailing : List String := []
  position : Position := {}
deriving DecidableEq, Repr

/-- A whole script. -/
structure Document where
  entries : List Entry := []
  layers : List LayerBlock := []
  devices : List DeviceBlock := []
  /-- The comments behind the last statement. -/
  trailing : List String := []
deriving DecidableEq, Repr, Inhabited

/-- An entry without its position. -/
def Entry.unplaced (e : Entry) : Entry := { e with position := {} }

/-- A layer without positions. -/
def LayerBlock.unplaced (l : LayerBlock) : LayerBlock :=
  { l with entries := l.entries.map Entry.unplaced, position := {} }

/-- A device block without positions. -/
def DeviceBlock.unplaced (d : DeviceBlock) : DeviceBlock :=
  { d with
    entries := d.entries.map Entry.unplaced
    layers := d.layers.map LayerBlock.unplaced
    position := {} }

namespace Document

/-- A document without positions. -/
def unplaced (d : Document) : Document :=
  { d with
    entries := d.entries.map Entry.unplaced
    layers := d.layers.map LayerBlock.unplaced
    devices := d.devices.map DeviceBlock.unplaced }

/-- Equality up to positions. -/
def Agrees (a b : Document) : Prop := a.unplaced = b.unplaced

instance (a b : Document) : Decidable (Agrees a b) := inferInstanceAs (Decidable (_ = _))

theorem Agrees.refl (d : Document) : d.Agrees d := rfl

theorem Agrees.symm {a b : Document} (h : a.Agrees b) : b.Agrees a := Eq.symm h

theorem Agrees.trans {a b c : Document} (h : a.Agrees b) (g : b.Agrees c) : a.Agrees c :=
  Eq.trans h g

/-- Whether the document holds nothing at all. -/
def isEmpty (d : Document) : Bool :=
  d.entries.isEmpty && d.layers.isEmpty && d.devices.isEmpty && d.trailing.isEmpty

/-- All layers: those outside any device block first. -/
def allLayers (d : Document) : List LayerBlock := d.layers ++ d.devices.flatMap (·.layers)

/-- Whether a layer of this name is declared anywhere. -/
def declaresLayer (d : Document) (name : String) : Bool := d.allLayers.any (·.name = name)

end Document

end KeyRemap
