import KeyRemap.Document.Scope
import KeyRemap.Issue
import KeyRemap.Text.Distance
import KeyRemap.Text.Printable
import KeyRemap.Vocabulary.Search

/-!
# Validation

The issues of a document, in document order. What conflicts with something earlier is told by
looking at the sites before it: the device blocks, layers and entries in the order of the document.
Blocks with one pattern count as one scope, and so do layers of one name in them, however often
they are repeated.
-/
namespace KeyRemap

/-- What makes the scope of an entry one with that of another: the pattern and the name of the
blocks around it. -/
structure ScopeKey where
  pattern : Option String := none
  layer : Option String := none
deriving DecidableEq, Repr

/-- A part of a document that issues are about. -/
inductive Site where
  | device (block : DeviceBlock)
  /-- A layer, in the device block of the given index if it is in one. -/
  | layer (parent : Option Nat) (block : LayerBlock)
  /-- An entry; `identity` tells whether its key is that of another. -/
  | entry (scope : Scope) (key : ScopeKey) (identity : String) (e : Entry)

namespace Document

/-- The sites of the entries of a block. -/
def entrySites (v : Vocabulary) (scope : Scope) (key : ScopeKey) (entries : List Entry) :
    List Site :=
  entries.map fun e => .entry scope key (v.identify e.mapping.source) e

/-- The scope of a layer. -/
def layerScope (parent : Option Nat) (name : String) : Scope :=
  match parent with
  | none => .globalLayer name
  | some index => .deviceLayer index name

/-- The sites of the layers of one parent. -/
def layerSites (v : Vocabulary) (parent : Option Nat) (pattern : Option String)
    (layers : List LayerBlock) : List Site :=
  layers.flatMap fun l =>
    .layer parent l ::
      entrySites v (layerScope parent l.name) ⟨pattern, some l.name⟩ l.entries

/-- The sites of a device block. -/
def deviceSites (v : Vocabulary) (index : Nat) (block : DeviceBlock) : List Site :=
  .device block ::
    entrySites v (.device index) ⟨some block.pattern, none⟩ block.entries ++
    layerSites v (some index) (some block.pattern) block.layers

/-- The sites of a document in its order. -/
def sites (v : Vocabulary) (d : Document) : List Site :=
  entrySites v .global {} d.entries ++ layerSites v none none d.layers ++
    d.devices.zipIdx.flatMap fun (block, index) => deviceSites v index block

end Document

/-- The place of the first device block with a pattern. -/
def firstPattern? (pattern : String) (sites : List Site) : Option Position :=
  sites.findSome? fun
    | .device block => if block.pattern = pattern then some block.position else none
    | _ => none

/-- The place of the first layer of a name in a parent. -/
def firstLayer? (parent : Option Nat) (name : String) (sites : List Site) : Option Position :=
  sites.findSome? fun
    | .layer p block => if p = parent ∧ block.name = name then some block.position else none
    | _ => none

/-- The place of the first entry for a key in a scope. -/
def firstSource? (key : ScopeKey) (identity : String) (sites : List Site) : Option Position :=
  sites.findSome? fun
    | .entry _ k i e => if k = key ∧ i = identity then some e.position else none
    | _ => none

/-- What is wrong with the pattern of a device block behind other sites. -/
def patternFinding? (earlier : List Site) (pattern : String) : Option Finding :=
  if pattern.isEmpty then some .emptyPattern
  else if pattern.toList.any Text.isControl then some (.controlInPattern pattern)
  else (firstPattern? pattern earlier).map (.duplicatePattern pattern ·)

/-- What is wrong with the name of a layer behind other sites. -/
def layerNameFinding? (earlier : List Site) (parent : Option Nat) (name : String) :
    Option Finding :=
  if name.isEmpty then some .emptyLayerName
  else (firstLayer? parent name earlier).map (.duplicateLayer name ·)

/-- The keys of a mapping that the vocabulary does not know. -/
def keyFindings (v : Vocabulary) (m : Mapping) : List Finding :=
  m.keyRefs.filterMap fun (role, name) =>
    if v.knows name then none else some (.unknownKey role name m.form (v.suggest name))

/-- What is wrong with a mapping but for its keys; `layers` are the names that are declared. -/
def mappingFinding? (layers : List String) : Mapping → Option Finding
  | .simple .. => none
  | .tapHold _ _ _ timeout =>
    if minTimeout ≤ timeout ∧ timeout ≤ maxTimeout then none else some (.timeoutOutOfRange timeout)
  | .sequence _ keys => if keys.isEmpty then some .emptySequence else none
  | .layerSwitch _ layer =>
    if layers.contains layer then none
    else some (.unresolvedLayer layer (Text.closest? 3 layer layers))

/-- The issues of a site behind other sites. -/
def Site.issues (v : Vocabulary) (d : Document) (earlier : List Site) : Site → List Issue
  | .device block =>
    (patternFinding? earlier block.pattern).toList.map (⟨·, block.position⟩)
  | .layer parent block =>
    (layerNameFinding? earlier parent block.name).toList.map (⟨·, block.position⟩)
  | .entry scope key identity e =>
    let duplicate := (firstSource? key identity earlier).map fun first =>
      Finding.duplicateSource e.mapping.source (d.describe scope) first e.position
    (keyFindings v e.mapping ++ (mappingFinding? (d.allLayers.map (·.name)) e.mapping).toList ++
      duplicate.toList).map (⟨·, e.position⟩)

/-- The issues of sites behind other sites. -/
def issuesAfter (v : Vocabulary) (d : Document) (earlier : List Site) : List Site → List Issue
  | [] => []
  | s :: ss => s.issues v d earlier ++ issuesAfter v d (earlier ++ [s]) ss

/-- The issues of a document under a vocabulary. -/
def Document.issues (v : Vocabulary) (d : Document) : List Issue := issuesAfter v d [] (d.sites v)

end KeyRemap
