import KeyRemap.Proofs.Edit.Outcome

/-!
# Where switches lead

A switch names a layer, and more than one layer may have the name. The switch leads to a layer of
its own device block if one has the name, else to one outside any device block, else to one of the
only device block that has the name (`Document.LeadsTo`). So it leads to the layer whose parent is
nearer than every other one with the name (`Document.leadsTo_iff`).
-/
namespace KeyRemap

/-- The place of a layer: its parent and its index there. -/
@[ext]
structure LayerPlace where
  parent : Option Nat
  index : Nat
deriving DecidableEq, Repr

/-- The place of an entry: the indices of the device block and of the layer around it, if there are
any, and its own index there. -/
structure EntryPlace where
  device : Option Nat
  layer : Option Nat
  index : Nat
deriving DecidableEq, Repr

/-- The layer that a mapping switches to. -/
def Mapping.switch? : Mapping → Option String
  | .layerSwitch _ layer => some layer
  | _ => none

theorem Mapping.switch?_retarget (m : Mapping) (source target : String) :
    (m.retarget source target).switch? =
      m.switch?.map fun name => if name = source then target else name := by
  cases m <;> rfl

/-- For a switch in a device block, or outside all, one parent of layers is nearer than another: it
is the switch's own, or it is no device block and the other one is not the switch's own. -/
def Nearer (device parent other : Option Nat) : Prop :=
  parent = device ∨ parent = none ∧ other ≠ device

theorem Nearer.eq_of_nearer {device parent other : Option Nat} (h : Nearer device parent other)
    (ho : Nearer device other parent) : parent = other := by
  obtain rfl | ⟨rfl, hne⟩ := h
  · exact (ho.resolve_right fun h => h.2 rfl).symm
  · obtain rfl | ⟨rfl, -⟩ := ho
    · exact absurd rfl hne
    · rfl

namespace Document

/-- The layers of a parent. A device block that is not there has none. -/
def layersIn (d : Document) : Option Nat → List LayerBlock
  | none => d.layers
  | some index => (d.devices[index]?).elim [] (·.layers)

def namesIn (d : Document) (parent : Option Nat) : List String :=
  (d.layersIn parent).map (·.name)

/-- The entries of a device block, or outside all, that stand in no layer. -/
def ownEntries (d : Document) : Option Nat → List Entry
  | none => d.entries
  | some index => (d.devices[index]?).elim [] (·.entries)

/-- The entries of a device block, or outside all, that stand in the layer of an index, or in no
layer. -/
def entriesIn (d : Document) (device : Option Nat) : Option Nat → List Entry
  | none => d.ownEntries device
  | some index => ((d.layersIn device)[index]?).elim [] (·.entries)

/-- The layer that the switch at a place names, if there is a switch. -/
def switchAt? (d : Document) (place : EntryPlace) : Option String :=
  ((d.entriesIn place.device place.layer)[place.index]?).bind (·.mapping.switch?)

/-- The layer to which a switch in a device block, or outside all, leads by a name. -/
inductive LeadsTo (d : Document) (name : String) : Option Nat → LayerPlace → Prop
  | own {device index : Nat} (h : (d.namesIn (some device)).idxOf? name = some index) :
    LeadsTo d name (some device) ⟨some device, index⟩
  | outside {device : Option Nat} {index : Nat}
    (hown : ∀ own, device = some own → name ∉ d.namesIn (some own))
    (h : (d.namesIn none).idxOf? name = some index) : LeadsTo d name device ⟨none, index⟩
  | only {device : Option Nat} {other index : Nat}
    (hown : ∀ own, device = some own → name ∉ d.namesIn (some own))
    (houtside : name ∉ d.namesIn none)
    (honly : ∀ another, name ∈ d.namesIn (some another) → another = other)
    (h : (d.namesIn (some other)).idxOf? name = some index) :
    LeadsTo d name device ⟨some other, index⟩

variable {d : Document} {name : String} {device : Option Nat}

/-- A switch leads to the first layer of the name in the parent that is nearer than every other one
with a layer of the name. -/
theorem leadsTo_iff {place : LayerPlace} : d.LeadsTo name device place ↔
    (d.namesIn place.parent).idxOf? name = some place.index ∧
      ∀ other, other ≠ place.parent → name ∈ d.namesIn other →
        Nearer device place.parent other := by
  constructor
  · rintro (@⟨own, index, h⟩ | @⟨_, index, hown, h⟩ | @⟨_, only, index, hown, houtside, honly, h⟩)
    · exact ⟨h, fun _ _ _ => .inl rfl⟩
    · refine ⟨h, fun other hne hname => .inr ⟨rfl, ?_⟩⟩
      rintro rfl
      cases other with
      | none => exact hne rfl
      | some own => exact hown own rfl hname
    · refine ⟨h, fun other hne hname => ?_⟩
      cases other with
      | none => exact absurd hname houtside
      | some another => exact absurd (congrArg some (honly another hname)) hne
  · obtain ⟨parent, index⟩ := place
    rintro ⟨h, hnear⟩
    by_cases hdevice : parent = device
    · subst hdevice
      cases parent with
      | none => exact .outside (fun own hown => nomatch hown) h
      | some own => exact .own h
    · -- The switch's own block has no layer of the name, since no other parent would be nearer.
      have hown (own : Nat) (ho : device = some own) : name ∉ d.namesIn (some own) := by
        intro hname
        obtain hp | ⟨-, hne⟩ := hnear (some own) (by rintro rfl; exact hdevice ho.symm) hname
        · exact hdevice hp
        · exact hne ho.symm
      have hfar (other : Option Nat) (hname : name ∈ d.namesIn other) :
          other = parent ∨ parent = none := by
        by_contra hne
        obtain ⟨hother, hparent⟩ := not_or.1 hne
        exact (hnear other hother hname).elim hdevice fun h => hparent h.1
      cases parent with
      | none => exact .outside hown h
      | some only =>
        have hsame (other : Option Nat) (hname : name ∈ d.namesIn other) : other = some only :=
          (hfar other hname).resolve_right nofun
        exact .only hown (fun hname => nomatch hsame none hname)
          (fun another hname => Option.some.inj (hsame (some another) hname)) h

theorem LeadsTo.mem_namesIn {place : LayerPlace} (h : d.LeadsTo name device place) :
    name ∈ d.namesIn place.parent :=
  List.isSome_idxOf?.1 ((leadsTo_iff.1 h).1 ▸ rfl)

/-- A switch leads to a layer still when its name is first at the same place and no more parents
have it. -/
theorem LeadsTo.of_namesIn {d' : Document} {place : LayerPlace} (h : d.LeadsTo name device place)
    (hi : (d'.namesIn place.parent).idxOf? name = (d.namesIn place.parent).idxOf? name)
    (hm : ∀ other, name ∈ d'.namesIn other → name ∈ d.namesIn other) :
    d'.LeadsTo name device place := by
  obtain ⟨hfirst, hnear⟩ := leadsTo_iff.1 h
  exact leadsTo_iff.2 ⟨hi.trans hfirst, fun other ho hname => hnear other ho (hm other hname)⟩

/-- A switch leads to no more than one layer. -/
theorem LeadsTo.unique {place other : LayerPlace} (h : d.LeadsTo name device place)
    (ho : d.LeadsTo name device other) : place = other := by
  obtain ⟨hi, hnear⟩ := leadsTo_iff.1 h
  obtain ⟨hj, hnear'⟩ := leadsTo_iff.1 ho
  have hparent : place.parent = other.parent := by
    by_contra hne
    have hfirst := hnear other.parent (Ne.symm hne) ho.mem_namesIn
    have hsecond := hnear' place.parent hne h.mem_namesIn
    exact hne (hfirst.eq_of_nearer hsecond)
  rw [hparent, hj] at hi
  exact LayerPlace.ext hparent (Option.some.inj hi).symm

/-- Members of a list at other places stay when one is replaced. -/
theorem getElem?_append_cons_of_ne {α : Type} {xs ys : List α} {i : Nat} (h : i ≠ xs.length)
    (a b : α) : (xs ++ a :: ys)[i]? = (xs ++ b :: ys)[i]? := by
  rw [List.getElem?_append, List.getElem?_append]
  split
  · rfl
  · rw [List.getElem?_cons, List.getElem?_cons, if_neg (by omega), if_neg (by omega)]

theorem LayersAt.layersIn_eq {parent : Option Nat} {ls : List LayerBlock}
    {put : List LayerBlock → Document} (h : d.LayersAt parent ls put) :
    d.layersIn parent = ls := by
  cases h with
  | none => rfl
  | some h => simp [layersIn, h]

/-- The layers of a parent are those that are put there; the other parents keep theirs. -/
theorem LayersAt.layersIn_put {parent : Option Nat} {ls : List LayerBlock}
    {put : List LayerBlock → Document} (h : d.LayersAt parent ls put) (ls' : List LayerBlock)
    (other : Option Nat) :
    (put ls').layersIn other = if other = parent then ls' else d.layersIn other := by
  cases h with
  | none => cases other <;> rfl
  | @some xs ys b h =>
    cases other with
    | none => rfl
    | some index =>
      by_cases hi : index = xs.length
      · simp [layersIn, hi]
      · simp only [layersIn, h, Option.some.injEq, if_neg hi]
        rw [getElem?_append_cons_of_ne hi]

/-- The entries that stand in no layer do not depend on the layers. -/
theorem LayersAt.ownEntries_put {parent : Option Nat} {ls : List LayerBlock}
    {put : List LayerBlock → Document} (h : d.LayersAt parent ls put) (ls' : List LayerBlock) :
    (put ls').ownEntries = d.ownEntries := by
  funext device
  cases h with
  | none => cases device <;> rfl
  | @some xs ys b h =>
    cases device with
    | none => rfl
    | some index =>
      by_cases hi : index = xs.length
      · simp [ownEntries, h, hi]
      · simp only [ownEntries, h]
        rw [getElem?_append_cons_of_ne hi]

/-- Whether the switches of a device block, or those outside all, are turned when a layer of a
parent has got another name. -/
def turns (d : Document) (parent : Option Nat) (source : String) (device : Option Nat) : Bool :=
  let outside := parent.isNone ||
    (!d.layers.any (·.name = source) && !d.devices.any (·.declares source))
  match device with
  | none => outside
  | some index => parent = some index ||
    (outside && !(d.devices[index]?).any (·.declares source))

theorem devices_retarget (d : Document) (parent : Option Nat) (source target : String)
    (index : Nat) : (d.retarget parent source target).devices[index]? =
      (d.devices[index]?).map fun b =>
        if d.turns parent source (some index) then b.retarget source target else b := by
  simp only [retarget, List.getElem?_map, List.getElem?_zipIdx]
  cases hb : d.devices[index]? with
  | none => rfl
  | some b => simp [turns, hb]

/-- What a device block has, its layers or its entries, is turned if the block is. -/
theorem elim_devices_retarget {α : Type} {part : DeviceBlock → List α} {f : α → α}
    {source target : String} (hf : ∀ b, part (b.retarget source target) = (part b).map f)
    (d : Document) (parent : Option Nat) (index : Nat) :
    ((d.retarget parent source target).devices[index]?).elim [] part =
      if d.turns parent source (some index) then ((d.devices[index]?).elim [] part).map f
      else (d.devices[index]?).elim [] part := by
  rw [devices_retarget]
  cases d.devices[index]? with
  | none => simp
  | some b =>
    simp only [Option.map_some, Option.elim_some]
    split
    · exact hf b
    · rfl

theorem layersIn_retarget (d : Document) (parent : Option Nat) (source target : String)
    (device : Option Nat) : (d.retarget parent source target).layersIn device =
      if d.turns parent source device then (d.layersIn device).map (·.retarget source target)
      else d.layersIn device := by
  cases device with
  | none => rfl
  | some index => exact elim_devices_retarget (fun _ => rfl) d parent index

theorem ownEntries_retarget (d : Document) (parent : Option Nat) (source target : String)
    (device : Option Nat) : (d.retarget parent source target).ownEntries device =
      if d.turns parent source device then (d.ownEntries device).map (·.retarget source target)
      else d.ownEntries device := by
  cases device with
  | none => rfl
  | some index => exact elim_devices_retarget (fun _ => rfl) d parent index

/-- Turning switches changes no name. -/
theorem namesIn_retarget (d : Document) (parent : Option Nat) (source target : String) :
    (d.retarget parent source target).namesIn = d.namesIn := by
  funext device
  rw [namesIn, layersIn_retarget, namesIn]
  split
  · rw [List.map_map]
    rfl
  · rfl

theorem leadsTo_retarget (d : Document) (parent : Option Nat) (source target : String)
    {place : LayerPlace} : (d.retarget parent source target).LeadsTo name device place ↔
      d.LeadsTo name device place := by
  rw [leadsTo_iff, leadsTo_iff, namesIn_retarget]

theorem entriesIn_retarget (d : Document) (parent : Option Nat) (source target : String)
    (device layer : Option Nat) : (d.retarget parent source target).entriesIn device layer =
      if d.turns parent source device then
        (d.entriesIn device layer).map (·.retarget source target)
      else d.entriesIn device layer := by
  cases layer with
  | none => exact d.ownEntries_retarget parent source target device
  | some index =>
    simp only [entriesIn, layersIn_retarget]
    split
    · rw [List.getElem?_map]
      cases (d.layersIn device)[index]? <;> rfl
    · rfl

/-- The switch at a place names the new layer if it named the old one and is turned. -/
theorem switchAt?_retarget (d : Document) (parent : Option Nat) (source target : String)
    (place : EntryPlace) : (d.retarget parent source target).switchAt? place =
      (d.switchAt? place).map fun name =>
        if d.turns parent source place.device = true ∧ name = source then target else name := by
  rw [switchAt?, entriesIn_retarget, switchAt?]
  by_cases ht : d.turns parent source place.device = true
  · simp only [ht, if_true, List.getElem?_map, Option.bind_map, Option.map_bind, true_and]
    congr 1
    funext e
    exact e.mapping.switch?_retarget source target
  · simp [ht]

theorem any_layers_iff : d.layers.any (·.name = name) = true ↔ name ∈ d.namesIn none := by
  simp [namesIn, layersIn]

theorem any_declares_iff {index : Nat} : (d.devices[index]?).any (·.declares name) = true ↔
    name ∈ d.namesIn (some index) := by
  simp only [namesIn, layersIn]
  cases d.devices[index]? <;> simp [DeviceBlock.declares]

/-- No layer has the name, be it in a device block or not. -/
theorem forall_notMem_namesIn_iff : (∀ parent, name ∉ d.namesIn parent) ↔
    (!d.layers.any (·.name = name) && !d.devices.any (·.declares name)) = true := by
  have hdevices : d.devices.any (·.declares name) = true ↔
      ∃ index, name ∈ d.namesIn (some index) := by
    simp only [← any_declares_iff, Option.any_eq_true, List.any_eq_true]
    constructor
    · rintro ⟨b, hb, hname⟩
      obtain ⟨index, hi⟩ := List.mem_iff_getElem?.1 hb
      exact ⟨index, b, hi, hname⟩
    · rintro ⟨index, b, hi, hname⟩
      exact ⟨b, List.mem_of_getElem? hi, hname⟩
  rw [Bool.and_eq_true, Bool.not_eq_true', Bool.not_eq_true', ← Bool.not_eq_true,
    ← Bool.not_eq_true, any_layers_iff, hdevices, not_exists]
  refine ⟨fun h => ⟨h none, fun index => h (some index)⟩, fun ⟨houtside, hinside⟩ parent => ?_⟩
  cases parent with
  | none => exact houtside
  | some index => exact hinside index

theorem declaresLayer_iff : d.declaresLayer name = true ↔ ∃ parent, name ∈ d.namesIn parent := by
  have hall : d.declaresLayer name =
      (d.layers.any (·.name = name) || d.devices.any (·.declares name)) := by
    simp [declaresLayer, allLayers, DeviceBlock.declares]
  rw [hall, ← not_iff_not, not_exists, forall_notMem_namesIn_iff]
  simp

/-- The switches of the renamed layer's own parent are turned. If that is outside all device blocks,
or no layer has the old name any more, so are those where no layer of the own block has it. -/
theorem turns_iff (d : Document) (parent : Option Nat) (source : String) (device : Option Nat) :
    d.turns parent source device = true ↔ parent = device ∨
      (parent = none ∨ ∀ other, source ∉ d.namesIn other) ∧
        ∀ own, device = some own → source ∉ d.namesIn (some own) := by
  rw [forall_notMem_namesIn_iff]
  cases device with
  | none => cases parent <;> simp [turns]
  | some index =>
    simp only [turns, Bool.or_eq_true, decide_eq_true_eq]
    refine or_congr_right ?_
    rw [Bool.and_eq_true, Bool.or_eq_true, Option.isNone_iff_eq_none, Bool.not_eq_true',
      ← Bool.not_eq_true, any_declares_iff]
    simp

end Document

end KeyRemap
