import KeyRemap.Validation

/-!
# What the check of a document depends on

The check looks at mappings, names, patterns and their order. Comments make no difference, and
places only come back in what is found: documents of the same structure have the same findings but
for the places that these name (`Document.findings_of_bare_eq`).
-/
namespace KeyRemap

/-- An entry without comments and place. -/
def Entry.bare (e : Entry) : Entry := { mapping := e.mapping }

/-- A layer without comments and places. -/
def LayerBlock.bare (l : LayerBlock) : LayerBlock :=
  { name := l.name, entries := l.entries.map Entry.bare }

/-- A device block without comments and places. -/
def DeviceBlock.bare (b : DeviceBlock) : DeviceBlock where
  pattern := b.pattern
  entries := b.entries.map Entry.bare
  layers := b.layers.map LayerBlock.bare

/-- A site without comments and places. -/
def Site.bare : Site → Site
  | .device block => .device block.bare
  | .layer parent block => .layer parent block.bare
  | .entry scope key identity e => .entry scope key identity e.bare

/-- A finding without the places that it names. -/
def Finding.unplaced : Finding → Finding
  | .duplicateSource source scope _ _ => .duplicateSource source scope {} {}
  | .duplicatePattern pattern _ => .duplicatePattern pattern {}
  | .duplicateLayer name _ => .duplicateLayer name {}
  | f => f

@[simp] theorem Finding.severity_unplaced (f : Finding) : f.unplaced.severity = f.severity := by
  cases f <;> rfl

namespace Document

/-- The structure of a document: what is left without comments and places. -/
def bare (d : Document) : Document where
  entries := d.entries.map Entry.bare
  layers := d.layers.map LayerBlock.bare
  devices := d.devices.map DeviceBlock.bare

@[simp] theorem bare_unplaced (d : Document) : d.unplaced.bare = d.bare := by
  simp [bare, unplaced, DeviceBlock.bare, DeviceBlock.unplaced, LayerBlock.bare,
    LayerBlock.unplaced, Entry.bare, Entry.unplaced, Function.comp_def]

theorem Agrees.bare_eq {a b : Document} (h : a.Agrees b) : a.bare = b.bare := by
  rw [← bare_unplaced a, ← bare_unplaced b, h]

theorem describe_bare (d : Document) (scope : Scope) :
    d.bare.describe scope = d.describe scope := by
  have hdevice (index : Nat) : d.bare.describeDevice index = d.describeDevice index := by
    unfold describeDevice bare
    rw [List.getElem?_map]
    cases d.devices[index]? <;> rfl
  cases scope <;> simp [describe, hdevice]

theorem layerNames_bare (d : Document) :
    d.bare.allLayers.map (·.name) = d.allLayers.map (·.name) := by
  simp [allLayers, bare, DeviceBlock.bare, LayerBlock.bare, List.map_flatMap, List.flatMap_map,
    Function.comp_def]

section Sites

variable (v : Vocabulary)

theorem entrySites_bare (scope : Scope) (key : ScopeKey) (es : List Entry) :
    entrySites v scope key (es.map Entry.bare) = (entrySites v scope key es).map Site.bare := by
  simp [entrySites, Site.bare, Entry.bare, Function.comp_def]

theorem layerSites_bare (parent : Option Nat) (pattern : Option String) (ls : List LayerBlock) :
    layerSites v parent pattern (ls.map LayerBlock.bare) =
      (layerSites v parent pattern ls).map Site.bare := by
  simp only [layerSites, List.flatMap_map, List.map_flatMap, List.map_cons]
  simp [← entrySites_bare, Site.bare, LayerBlock.bare]

theorem deviceSites_bare (index : Nat) (b : DeviceBlock) :
    deviceSites v index b.bare = (deviceSites v index b).map Site.bare := by
  simp [deviceSites, ← entrySites_bare, ← layerSites_bare, Site.bare, DeviceBlock.bare]

theorem sites_bare (d : Document) : d.bare.sites v = (d.sites v).map Site.bare := by
  simp only [sites, bare, entrySites_bare, layerSites_bare, List.map_append, List.zipIdx_map,
    List.flatMap_map, List.map_flatMap, ← deviceSites_bare]
  rfl

end Sites

end Document

section Findings

variable {v : Vocabulary} {d : Document}

/-- What is found at sites is found without comments and places, but for places. -/
theorem findSome?_bare {f : Site → Option Position}
    (h : ∀ s : Site, f s.bare = (f s).map fun _ => {}) (sites : List Site) :
    (sites.map Site.bare).findSome? f = (sites.findSome? f).map fun _ => {} := by
  rw [List.findSome?_map, List.map_findSome?]
  exact congrArg (List.findSome? · sites) (funext h)

theorem firstPattern?_bare (pattern : String) (sites : List Site) :
    firstPattern? pattern (sites.map Site.bare) =
      (firstPattern? pattern sites).map fun _ => {} := by
  refine findSome?_bare (fun s => ?_) sites
  cases s with
  | device block => by_cases hp : block.pattern = pattern <;> simp [Site.bare, DeviceBlock.bare, hp]
  | layer | entry => rfl

theorem firstLayer?_bare (parent : Option Nat) (name : String) (sites : List Site) :
    firstLayer? parent name (sites.map Site.bare) =
      (firstLayer? parent name sites).map fun _ => {} := by
  refine findSome?_bare (fun s => ?_) sites
  cases s with
  | layer p block =>
    by_cases hp : p = parent ∧ block.name = name <;> simp [Site.bare, LayerBlock.bare, hp]
  | device | entry => rfl

theorem firstSource?_bare (key : ScopeKey) (identity : String) (sites : List Site) :
    firstSource? key identity (sites.map Site.bare) =
      (firstSource? key identity sites).map fun _ => {} := by
  refine findSome?_bare (fun s => ?_) sites
  cases s with
  | entry scope k i e =>
    by_cases hp : k = key ∧ i = identity <;> simp [Site.bare, Entry.bare, hp]
  | device | layer => rfl

theorem patternFinding?_bare (pattern : String) (earlier : List Site) :
    (patternFinding? (earlier.map Site.bare) pattern).map Finding.unplaced =
      (patternFinding? earlier pattern).map Finding.unplaced := by
  unfold patternFinding?
  split; · rfl
  split; · rfl
  rw [firstPattern?_bare]
  cases firstPattern? pattern earlier <;> rfl

theorem layerNameFinding?_bare (parent : Option Nat) (name : String) (earlier : List Site) :
    (layerNameFinding? (earlier.map Site.bare) parent name).map Finding.unplaced =
      (layerNameFinding? earlier parent name).map Finding.unplaced := by
  unfold layerNameFinding?
  split; · rfl
  rw [firstLayer?_bare]
  cases firstLayer? parent name earlier <;> rfl

theorem map_unplaced_finding (findings : List Finding) (p : Position) :
    (findings.map (Issue.mk · p)).map (·.finding.unplaced) = findings.map Finding.unplaced := by
  rw [List.map_map]
  rfl

/-- A site without comments and places has the same findings but for places. -/
theorem Site.findings_bare (s : Site) (earlier : List Site) :
    (s.bare.issues v d.bare (earlier.map Site.bare)).map (·.finding.unplaced) =
      (s.issues v d earlier).map (·.finding.unplaced) := by
  cases s with
  | device block =>
    rw [Site.bare, Site.issues, Site.issues, map_unplaced_finding, map_unplaced_finding,
      ← Option.toList_map, ← Option.toList_map]
    exact congrArg Option.toList (patternFinding?_bare block.pattern earlier)
  | layer parent block =>
    rw [Site.bare, Site.issues, Site.issues, map_unplaced_finding, map_unplaced_finding,
      ← Option.toList_map, ← Option.toList_map]
    exact congrArg Option.toList (layerNameFinding?_bare parent block.name earlier)
  | entry scope key identity e =>
    simp only [Site.bare, Entry.bare, Site.issues, map_unplaced_finding, firstSource?_bare,
      Document.describe_bare, Document.layerNames_bare, List.map_append]
    cases firstSource? key identity earlier <;> rfl

theorem findings_issuesAfter_bare (earlier sites : List Site) :
    (issuesAfter v d.bare (earlier.map Site.bare) (sites.map Site.bare)).map
        (·.finding.unplaced) =
      (issuesAfter v d earlier sites).map (·.finding.unplaced) := by
  induction sites generalizing earlier with
  | nil => rfl
  | cons s ss ih =>
    have hss := ih (earlier ++ [s])
    rw [List.map_append] at hss
    simp only [List.map_cons, issuesAfter, List.map_append, Site.findings_bare]
    rw [← hss]
    rfl

/-- Documents of the same structure have the same findings but for places. -/
theorem Document.findings_of_bare_eq {d d' : Document} (h : d.bare = d'.bare) (v : Vocabulary) :
    (d.issues v).map (·.finding.unplaced) = (d'.issues v).map (·.finding.unplaced) := by
  have hbare (d : Document) :
      (d.bare.issues v).map (·.finding.unplaced) = (d.issues v).map (·.finding.unplaced) := by
    rw [issues, sites_bare]
    exact findings_issuesAfter_bare [] (d.sites v)
  rw [← hbare d, h, hbare d']

end Findings

end KeyRemap
