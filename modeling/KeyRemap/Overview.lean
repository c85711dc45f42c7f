import KeyRemap.Document.Scope
import KeyRemap.Wildcard
import KeyRemap.Json

/-!
# Overviews

Questions about a document: which patterns and layers it names, and what applies to a device.
-/
namespace KeyRemap.Document

/-- The members of a list, each at its first place only. -/
def distinct (names : List String) : List String := names.eraseDups

/-- The device patterns. -/
def devicePatterns (d : Document) : List String := distinct (d.devices.map (·.pattern))

/-- The names of the layers, those outside device blocks first. -/
def layerNames (d : Document) : List String := distinct (d.allLayers.map (·.name))

/-- Whether there are mappings outside any block. -/
def hasGlobalMappings (d : Document) : Bool := !d.entries.isEmpty

/-- The mappings of all device blocks with a pattern, without those in their layers. -/
def mappingsForPattern (d : Document) (pattern : String) : List Mapping :=
  (d.devices.filter (·.pattern = pattern)).flatMap fun b => b.entries.map (·.mapping)

/-- The device blocks whose pattern describes a device. -/
def devicesMatching (d : Document) (id : String) : List DeviceBlock :=
  d.devices.filter (Wildcard.describes ·.pattern id)

/-- The counts of a document: mappings, distinct layer names and device blocks. -/
structure Summary where
  mappings : Nat
  layers : Nat
  devices : Nat
deriving DecidableEq, Repr

def summary (d : Document) : Summary := ⟨d.mappingCount, d.layerNames.length, d.devices.length⟩

def Summary.toJson (s : Summary) : Json :=
  .object [("mappings", .int s.mappings), ("layers", .int s.layers), ("devices", .int s.devices)]

end KeyRemap.Document
