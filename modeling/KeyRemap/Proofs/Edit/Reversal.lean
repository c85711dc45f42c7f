import KeyRemap.Proofs.Edit.Resolution
import KeyRemap.Proofs.Script.Written

/-!
# Renamed and renamed back

A layer that gets a name which nothing else has can be given its old name again, and the document
is what it was (`Edit.apply_renameLayer_back`). The switches that are turned on the way back are
told by another document than those on the way out, and are more: all of them, since no layer but
the renamed one has the new name. But those that name it are the ones that were turned to it.
-/
namespace KeyRemap

section Back

variable (source : String) {target : String}

/-- What can be undone for each member, whether it was done or not, can be undone for all. -/
theorem map_ite_map {α : Type} {f g : α → α} {xs : List α}
    (h : ∀ x ∈ xs, ∀ which : Bool, g (if which then f x else x) = x) (which : Bool) :
    (if which then xs.map f else xs).map g = xs := by
  have hall : ∀ x ∈ xs, g (if which then f x else x) = x := fun x hx => h x hx which
  calc (if which then xs.map f else xs).map g
      = xs.map fun x => g (if which then f x else x) := by cases which <;> simp
    _ = xs := (List.map_congr_left hall).trans xs.map_id'

/-- A switch that did not name the target names what it named, if it is turned to the target, or is
not, and is turned back. -/
theorem Mapping.retarget_back {m : Mapping} (h : m.switch? ≠ some target) (which : Bool) :
    (if which then m.retarget source target else m).retarget target source = m := by
  cases m with
  | layerSwitch key layer =>
    have hl : layer ≠ target := fun he => h (congrArg some he)
    by_cases hs : layer = source
    · cases which <;> simp [retarget, hs, hs ▸ hl]
    · cases which <;> simp [retarget, hs, hl]
  | _ => cases which <;> rfl

theorem Entry.retarget_back {e : Entry} (h : e.mapping.switch? ≠ some target) (which : Bool) :
    (if which then e.retarget source target else e).retarget target source = e := by
  have hm := Mapping.retarget_back source h which
  have hparts : (if which then e.retarget source target else e) =
      { e with mapping := if which then e.mapping.retarget source target else e.mapping } := by
    cases which <;> rfl
  rw [hparts, retarget, hm]

theorem LayerBlock.retarget_back {l : LayerBlock}
    (h : ∀ e ∈ l.entries, e.mapping.switch? ≠ some target) (which : Bool) :
    (if which then l.retarget source target else l).retarget target source = l := by
  have hentries := map_ite_map (fun e he => Entry.retarget_back source (h e he)) which
  have hparts : (if which then l.retarget source target else l) =
      { l with
        entries := if which then l.entries.map (·.retarget source target) else l.entries } := by
    cases which <;> rfl
  rw [hparts, retarget, hentries]

theorem DeviceBlock.retarget_back {b : DeviceBlock}
    (he : ∀ e ∈ b.entries, e.mapping.switch? ≠ some target)
    (hl : ∀ l ∈ b.layers, ∀ e ∈ l.entries, e.mapping.switch? ≠ some target) (which : Bool) :
    (if which then b.retarget source target else b).retarget target source = b := by
  have hentries := map_ite_map (fun e h => Entry.retarget_back source (he e h)) which
  have hlayers := map_ite_map
    (fun l h => LayerBlock.retarget_back source (hl l h)) which
  have hparts : (if which then b.retarget source target else b) =
      { b with
        entries := if which then b.entries.map (·.retarget source target) else b.entries
        layers := if which then b.layers.map (·.retarget source target) else b.layers } := by
    cases which <;> rfl
  rw [hparts]
  simp only [retarget, hentries, hlayers]

end Back

namespace Document

variable {d : Document} {parent : Option Nat} {source target : String}

/-- All switches to one layer turned to another. -/
def retargetAll (d : Document) (source target : String) : Document :=
  { d with
    entries := d.entries.map (·.retarget source target)
    layers := d.layers.map (·.retarget source target)
    devices := d.devices.map (·.retarget source target) }

/-- If no layer has the old name any more, all switches to it are turned. -/
theorem retarget_eq_retargetAll (h : ∀ other, source ∉ d.namesIn other) :
    d.retarget parent source target = d.retargetAll source target := by
  have hall (device : Option Nat) : d.turns parent source device = true := by
    rw [turns_iff]
    exact .inr ⟨.inr h, fun own _ => h (some own)⟩
  have hentries : (d.retarget parent source target).entries =
      d.entries.map (·.retarget source target) :=
    (d.ownEntries_retarget parent source target none).trans (if_pos (hall none))
  have hlayers : (d.retarget parent source target).layers =
      d.layers.map (·.retarget source target) :=
    (d.layersIn_retarget parent source target none).trans (if_pos (hall none))
  have hdevices : (d.retarget parent source target).devices =
      d.devices.map (·.retarget source target) := by
    apply List.ext_getElem?
    intro i
    simp [devices_retarget, hall]
  calc d.retarget parent source target
      = { d with
          entries := (d.retarget parent source target).entries
          layers := (d.retarget parent source target).layers
          devices := (d.retarget parent source target).devices } := rfl
    _ = d.retargetAll source target := by rw [hentries, hlayers, hdevices, retargetAll]

/-- Switches that are turned to a layer that none named before are turned back, if all are. -/
theorem retargetAll_retarget (h : ∀ e ∈ d.allEntries, e.mapping.switch? ≠ some target) :
    (d.retarget parent source target).retargetAll target source = d := by
  obtain ⟨he, hl, hd⟩ := forall_mem_allEntries.1 h
  have hentries := map_ite_map fun e h => Entry.retarget_back source (he e h)
  have hlayers := map_ite_map fun l h => LayerBlock.retarget_back source (hl l h)
  have hdevices : ((d.retarget parent source target).devices).map (·.retarget target source) =
      d.devices := by
    apply List.ext_getElem?
    intro i
    rw [List.getElem?_map, devices_retarget]
    cases hb : d.devices[i]? with
    | none => rfl
    | some b =>
      obtain ⟨hes, hls⟩ := hd b (List.mem_of_getElem? hb)
      exact congrArg some (DeviceBlock.retarget_back source hes hls _)
  rw [retargetAll, hdevices]
  simp only [retarget, hentries, hlayers]

/-- Layers that are put in a parent come with their switches turned if all are turned. -/
theorem retargetAll_setLayersOf (d : Document) (layers : List LayerBlock) (parent : Option Nat)
    (source target : String) : (d.setLayersOf layers parent).retargetAll source target =
      (d.retargetAll source target).setLayersOf (layers.map (·.retarget source target)) parent := by
  cases parent with
  | none => rfl
  | some index =>
    have hdevices : (d.devices.modify index ({ · with layers := layers })).map
          (·.retarget source target) =
        (d.devices.map (·.retarget source target)).modify index
          ({ · with layers := layers.map (·.retarget source target) }) := by
      apply List.ext_getElem?
      intro i
      simp only [List.getElem?_map, List.getElem?_modify]
      cases d.devices[i]? with
      | none => rfl
      | some b =>
        by_cases hi : index = i
        · simp [hi, DeviceBlock.retarget]
        · simp [hi]
    simp only [setLayersOf, retargetAll, hdevices]

theorem layersOf_retarget (source target : String) {layers : List LayerBlock}
    (h : d.layersOf parent = .ok layers) :
    (d.retarget parent source target).layersOf parent =
      .ok (layers.map (·.retarget source target)) := by
  have hturned : d.turns parent source parent = true := (turns_iff ..).2 (.inl rfl)
  cases parent with
  | none =>
    cases h
    exact congrArg Except.ok ((layersIn_retarget ..).trans (if_pos hturned))
  | some index =>
    simp only [layersOf, devices_retarget, hturned] at h ⊢
    cases hb : d.devices[index]? with
    | none => simp [hb] at h
    | some b =>
      rw [hb] at h
      cases h
      rfl

theorem setLayersOf_setLayersOf (d : Document) (layers layers' : List LayerBlock)
    (parent : Option Nat) :
    (d.setLayersOf layers parent).setLayersOf layers' parent = d.setLayersOf layers' parent := by
  cases parent with
  | none => rfl
  | some index =>
    simp only [setLayersOf, List.modify_modify_eq]
    rfl

theorem layersOf_setLayersOf {layers : List LayerBlock} (h : d.layersOf parent = .ok layers)
    (layers' : List LayerBlock) : (d.setLayersOf layers' parent).layersOf parent = .ok layers' := by
  cases parent with
  | none => rfl
  | some index =>
    simp only [layersOf, setLayersOf, List.getElem?_modify] at h ⊢
    cases hb : d.devices[index]? with
    | none => simp [hb] at h
    | some b => simp

/-- The entries of a document do not depend on the names of its layers. -/
theorem LayersAt.allEntries_put {ls ls' : List LayerBlock} {put : List LayerBlock → Document}
    (h : d.LayersAt parent ls put) (hs : ls'.map (·.entries) = ls.map (·.entries)) :
    (put ls').allEntries = d.allEntries := by
  have hflat : ls'.flatMap (·.entries) = ls.flatMap (·.entries) := by
    rw [List.flatMap_def, hs, List.flatMap_def]
  cases h with
  | none => simp [allEntries, hflat]
  | some h => simp [allEntries, h, hflat]

theorem LayersAt.mem_allEntries {ls : List LayerBlock} {put : List LayerBlock → Document}
    (h : d.LayersAt parent ls put) : ∀ l ∈ ls, ∀ e ∈ l.entries, e ∈ d.allEntries := by
  obtain ⟨-, hlayers, hdevices⟩ := forall_mem_allEntries.1 fun e (he : e ∈ d.allEntries) => he
  cases h with
  | none => exact hlayers
  | @some xs ys b hd => exact (hdevices b (hd ▸ by simp)).2

/-- Switches that were turned to the target are turned back, be it that the layers of the parent
have got other names by then, if no switch and no layer had that name. -/
theorem retarget_setLayersOf_retarget (source : String) {layers layers' : List LayerBlock}
    (hd : d.layersOf parent = .ok layers)
    (hu : ∀ e ∈ d.allEntries, e.mapping.switch? ≠ some target)
    (hu' : ∀ l ∈ layers', ∀ e ∈ l.entries, e.mapping.switch? ≠ some target)
    (hn : ∀ other, other ≠ parent → target ∉ d.namesIn other)
    (hn' : ∀ l ∈ layers', l.name ≠ target) :
    ((d.retarget parent source target).setLayersOf (layers'.map (·.retarget source target))
      parent).retarget parent target source = d.setLayersOf layers' parent := by
  have hp := layersAt_setLayersOf (layersOf_retarget source target hd)
  have hfree : ∀ other, target ∉ ((d.retarget parent source target).setLayersOf
      (layers'.map (·.retarget source target)) parent).namesIn other := by
    intro other
    rw [namesIn, hp.layersIn_put]
    by_cases ho : other = parent
    · rw [if_pos ho, List.map_map]
      intro hmem
      obtain ⟨l, hl, he⟩ := List.mem_map.1 hmem
      exact hn' l hl he
    · rw [if_neg ho, ← namesIn, namesIn_retarget]
      exact hn other ho
  have hlayers : (layers'.map (·.retarget source target)).map (·.retarget target source) =
      layers' :=
    map_ite_map (fun l h => LayerBlock.retarget_back source (hu' l h)) true
  calc ((d.retarget parent source target).setLayersOf (layers'.map (·.retarget source target))
        parent).retarget parent target source
      = ((d.retarget parent source target).setLayersOf (layers'.map (·.retarget source target))
          parent).retargetAll target source := retarget_eq_retargetAll hfree
    _ = ((d.retarget parent source target).retargetAll target source).setLayersOf
          ((layers'.map (·.retarget source target)).map (·.retarget target source)) parent :=
        retargetAll_setLayersOf ..
    _ = d.setLayersOf layers' parent := by rw [retargetAll_retarget hu, hlayers]

/-- The only layer of a name in a parent. -/
theorem exists_split_of_count {name : String} (h : (d.namesIn parent).count name = 1) :
    ∃ xs l ys, d.layersOf parent = .ok (xs ++ l :: ys) ∧ l.name = name ∧
      (∀ x ∈ xs, x.name ≠ name) ∧ ∀ y ∈ ys, y.name ≠ name := by
  have hmem : name ∈ d.namesIn parent := List.count_pos_iff.1 (by omega)
  obtain ⟨l, hl, rfl⟩ := List.mem_map.1 hmem
  have hlayers : d.layersOf parent = .ok (d.layersIn parent) := by
    cases parent with
    | none => rfl
    | some index =>
      simp only [layersOf, layersIn] at hl ⊢
      cases hb : d.devices[index]? with
      | none => simp [hb] at hl
      | some b => rfl
  obtain ⟨xs, ys, hsplit⟩ := List.append_of_mem hl
  rw [namesIn, hsplit, List.map_append, List.map_cons, List.count_append,
    List.count_cons_self] at h
  have hx : l.name ∉ xs.map (·.name) := List.count_eq_zero.1 (by omega)
  have hy : l.name ∉ ys.map (·.name) := List.count_eq_zero.1 (by omega)
  refine ⟨xs, l, ys, hsplit ▸ hlayers, rfl, fun x h he => ?_, fun y h he => ?_⟩
  · exact hx (he ▸ List.mem_map_of_mem h)
  · exact hy (he ▸ List.mem_map_of_mem h)

end Document

namespace Edit

open Document

variable {d : Document} {parent : Option Nat} {source target : String}

/-- The first layer of a name gets another one that no layer of the parent has. -/
theorem apply_renameLayer (target : String) {xs ys : List LayerBlock} {l : LayerBlock}
    (h : d.layersOf parent = .ok (xs ++ l :: ys)) (hx : ∀ x ∈ xs, x.name ≠ l.name)
    (hn : ∀ x ∈ xs ++ l :: ys, x.name ≠ target) :
    (Edit.renameLayer parent l.name target).apply d =
      .ok ((d.setLayersOf (xs ++ { l with name := target } :: ys) parent).retarget parent
        l.name target) := by
  have hfree : ¬ (l.name ≠ target ∧ (xs ++ l :: ys).any (·.name = target) = true) := by
    rintro ⟨-, hany⟩
    obtain ⟨x, hmem, hname⟩ := List.any_eq_true.1 hany
    exact hn x hmem (by simpa using hname)
  have hthere : (xs ++ l :: ys).any (·.name = l.name) = true := by simp
  have hupdate : updateFirst (fun x : LayerBlock => decide (x.name = l.name))
      ({ · with name := target }) (xs ++ l :: ys) = xs ++ { l with name := target } :: ys :=
    updateFirst_append_cons (by simpa using hx) (by simp) _
  rw [Edit.apply, h]
  show (if _ then _ else _) = _
  rw [if_neg hfree, if_pos hthere, hupdate]
  rfl

/-- If one layer of a parent has the old name, and no layer and no switch the new one, a rename can
be made, and the one back makes the document what it was. -/
theorem apply_renameLayer_back (hs : (d.namesIn parent).count source = 1)
    (ht : d.declaresLayer target = false)
    (hu : ∀ e ∈ d.allEntries, e.mapping.switch? ≠ some target) :
    ∃ d', (Edit.renameLayer parent source target).apply d = .ok d' ∧
      (Edit.renameLayer parent target source).apply d' = .ok d := by
  replace ht : ∀ other, target ∉ d.namesIn other := by
    intro other hmem
    have hdeclared := declaresLayer_iff.2 ⟨other, hmem⟩
    rw [ht] at hdeclared
    cases hdeclared
  obtain ⟨xs, l, ys, hlayers, rfl, hx, hy⟩ := exists_split_of_count hs
  have hp := layersAt_setLayersOf hlayers
  have hfree : ∀ x ∈ xs ++ l :: ys, x.name ≠ target := by
    intro x hmem he
    refine ht parent (he ▸ ?_)
    rw [namesIn, hp.layersIn_eq]
    exact List.mem_map_of_mem hmem
  -- The way out: the switches that lead to the layer are turned.
  set e := d.setLayersOf (xs ++ { l with name := target } :: ys) parent with he
  have hout := apply_renameLayer target hlayers hx hfree
  have hentries : e.allEntries = d.allEntries := hp.allEntries_put (by simp)
  have hnames : ∀ other, other ≠ parent → target ∉ e.namesIn other := by
    intro other ho
    rw [he, namesIn, hp.layersIn_put, if_neg ho]
    exact ht other
  have helayers : e.layersOf parent = .ok (xs ++ { l with name := target } :: ys) :=
    layersOf_setLayersOf hlayers _
  -- The way back: all switches to the new name are turned.
  have hturned := layersOf_retarget l.name target helayers
  rw [List.map_append, List.map_cons] at hturned
  have hback := apply_renameLayer l.name hturned
    (by simpa [LayerBlock.retarget] using fun x h => hfree x (List.mem_append_left _ h)) (by
      have hne : target ≠ l.name := fun he => hfree l (by simp) he.symm
      simpa [or_imp, forall_and, LayerBlock.retarget, hne] using And.intro hx hy)
  have hlast := retarget_setLayersOf_retarget l.name helayers
    (hentries ▸ hu) (fun x h e hm => hu e (hp.mem_allEntries x h e hm)) hnames hfree
  rw [List.map_append, List.map_cons, he, setLayersOf_setLayersOf, hp.put_self] at hlast
  exact ⟨_, hout, hback.trans (congrArg Except.ok hlast)⟩

/-- A layer of a device block, while another one has the same name. Of the two switches to that name
only the one in the block is turned, and back. -/
theorem apply_renameLayer_back_of_device_layer :
    ∃ d d' : Document,
      d = { entries := [{ mapping := .layerSwitch "CapsLock" "nav", position := ⟨1, 1⟩ }]
            layers := [{ name := "nav", position := ⟨2, 1⟩ }]
            devices := [{ pattern := "kbd"
                          entries := [{ mapping := .layerSwitch "RAlt" "nav"
                                        comments := ["// own"], position := ⟨5, 5⟩ }]
                          layers := [{ name := "nav", position := ⟨6, 5⟩ }] }] } ∧
      (d.namesIn (some 0)).count "nav" = 1 ∧ d.declaresLayer "arrows" = false ∧
      (∀ e ∈ d.allEntries, e.mapping.switch? ≠ some "arrows") ∧
      (Edit.renameLayer (some 0) "nav" "arrows").apply d = .ok d' ∧
      (Edit.renameLayer (some 0) "arrows" "nav").apply d' = .ok d := by
  let d : Document :=
    { entries := [{ mapping := .layerSwitch "CapsLock" "nav", position := ⟨1, 1⟩ }]
      layers := [{ name := "nav", position := ⟨2, 1⟩ }]
      devices := [{ pattern := "kbd"
                    entries := [{ mapping := .layerSwitch "RAlt" "nav"
                                  comments := ["// own"], position := ⟨5, 5⟩ }]
                    layers := [{ name := "nav", position := ⟨6, 5⟩ }] }] }
  have hs : (d.namesIn (some 0)).count "nav" = 1 := by decide
  have ht : d.declaresLayer "arrows" = false := by decide
  have hu : ∀ e ∈ d.allEntries, e.mapping.switch? ≠ some "arrows" := by decide
  obtain ⟨d', hout, hback⟩ := apply_renameLayer_back hs ht hu
  exact ⟨d, d', rfl, hs, ht, hu, hout, hback⟩

end Edit

end KeyRemap
