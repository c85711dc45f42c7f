import KeyRemap.Proofs.Edit.Resolution
import Mathlib.Logic.Function.Basic

/-!
# Renamed layers and the switches that lead to them

A rename turns the switches that lead to the renamed layer, and no others. It looks for the new name
in the layer's own parent only, so a layer of that name in another parent can come between a switch
and the layer that it led to (`Document.Obscures`). If none does, each switch leads where it led
(`Edit.leadsTo_apply_renameLayer_iff`).
-/
namespace KeyRemap

namespace Document

/-- The layers have the same names in both documents but one: the first of a name in a parent has
another name, which is new there. -/
structure Renamed (d d' : Document) (parent : Option Nat) (source target : String)
    (us vs : List String) : Prop where
  before : d.namesIn parent = us ++ source :: vs
  after : d'.namesIn = Function.update d.namesIn parent (us ++ target :: vs)
  first : source ∉ us
  free : source ≠ target → target ∉ d.namesIn parent

/-- Another layer of the new name comes between the switch and the layer that it led to: the switch
led to the renamed layer, and another one that has the new name is not farther; or it led to a layer
that has the new name, and the renamed one is not farther. -/
def Obscures (d : Document) (parent : Option Nat) (source target name : String)
    (device : Option Nat) (place : LayerPlace) : Prop :=
  source ≠ target ∧
    (name = source ∧ place.parent = parent ∧
        (∃ other, target ∈ d.namesIn other ∧ ¬ Nearer device parent other) ∨
      name = target ∧ ¬ Nearer device place.parent parent)

/-- The switch led to the renamed layer from outside its device block, where another layer keeps the
old name. -/
def LeavesNamesake (d : Document) (parent : Option Nat) (source target name : String)
    (device : Option Nat) (place : LayerPlace) : Prop :=
  source ≠ target ∧ name = source ∧ place.parent = parent ∧ parent ≠ none ∧ parent ≠ device ∧
    1 < (d.namesIn parent).count source

theorem idxOf?_append_cons {a : String} {us vs : List String} (h : a ∉ us) :
    (us ++ a :: vs).idxOf? a = some us.length := by
  induction us with
  | nil => simp [List.idxOf?_cons]
  | cons u us ih =>
    obtain ⟨hu, hus⟩ := not_or.1 (mt List.mem_cons.2 h)
    simp [List.idxOf?_cons, Ne.symm hu, ih hus]

theorem idxOf?_append_cons_of_ne {a b c : String} {us vs : List String} (hb : b ≠ a)
    (hc : c ≠ a) : (us ++ b :: vs).idxOf? a = (us ++ c :: vs).idxOf? a := by
  induction us with
  | nil => simp [List.idxOf?_cons, hb, hc]
  | cons u us ih => simp [List.idxOf?_cons, ih]

variable {d d' : Document} {parent device : Option Nat} {source target name : String}
  {us vs : List String} {place : LayerPlace}

namespace Renamed

theorem namesIn_of_ne (h : d.Renamed d' parent source target us vs) {other : Option Nat}
    (ho : other ≠ parent) : d'.namesIn other = d.namesIn other := by
  rw [h.after, Function.update_of_ne ho]

theorem namesIn_parent (h : d.Renamed d' parent source target us vs) :
    d'.namesIn parent = us ++ target :: vs := by
  rw [h.after, Function.update_self]

theorem idxOf?_of_ne (h : d.Renamed d' parent source target us vs) (hs : name ≠ source)
    (ht : name ≠ target) (other : Option Nat) :
    (d'.namesIn other).idxOf? name = (d.namesIn other).idxOf? name := by
  by_cases ho : other = parent
  · rw [ho, h.namesIn_parent, h.before]
    exact idxOf?_append_cons_of_ne (Ne.symm ht) (Ne.symm hs)
  · rw [h.namesIn_of_ne ho]

/-- A switch that leads to the renamed layer is turned. -/
theorem turns_of_leadsTo (h : d.Renamed d' parent source target us vs)
    (hl : d.LeadsTo source device place) (hp : place.parent = parent) (hne : source ≠ target)
    (hn : ¬ d.LeavesNamesake parent source target source device place) :
    d'.turns parent source device = true := by
  rw [turns_iff]
  by_cases hown : parent = device
  · exact .inl hown
  have hnear := (leadsTo_iff.1 hl).2
  rw [hp] at hnear
  refine .inr ⟨?_, fun own ho hname => ?_⟩
  · by_cases hparent : parent = none
    · exact .inl hparent
    refine .inr fun other hname => ?_
    by_cases ho : other = parent
    · -- The parent had the old name once only.
      have hcount : (d.namesIn parent).count source ≤ 1 := by
        by_contra hmany
        exact hn ⟨hne, rfl, hp, hparent, hown, Nat.lt_of_not_le hmany⟩
      have hv : source ∉ vs := by
        rw [h.before, List.count_append, List.count_cons_self] at hcount
        exact List.count_eq_zero.1 (by omega)
      rw [ho, h.namesIn_parent] at hname
      simp [h.first, hv, hne] at hname
    · rw [h.namesIn_of_ne ho] at hname
      exact (hnear other ho hname).elim hown fun hnone => hparent hnone.1
  · have hother : some own ≠ parent := ho ▸ Ne.symm hown
    rw [h.namesIn_of_ne hother] at hname
    exact (hnear (some own) hother hname).elim hown fun hnone => hnone.2 ho.symm

/-- A switch that leads to another layer of the old name is not turned. -/
theorem turns_eq_false_of_leadsTo (h : d.Renamed d' parent source target us vs)
    (hl : d.LeadsTo source device place) (hp : place.parent ≠ parent) :
    d'.turns parent source device = false := by
  have hstill : source ∈ d'.namesIn place.parent := by
    rw [h.namesIn_of_ne hp]
    exact hl.mem_namesIn
  have hnear := (leadsTo_iff.1 hl).2 parent (Ne.symm hp) (by simp [h.before])
  rw [← Bool.not_eq_true, turns_iff]
  rintro (hown | ⟨hgone, hdevice⟩)
  · exact hnear.elim (fun ho => hp (ho.trans hown.symm)) fun ho => ho.2 hown
  · obtain rfl : parent = none := hgone.resolve_right fun hall => hall place.parent hstill
    obtain ho | ⟨hnone, -⟩ := hnear
    · cases hd : device with
      | none => exact hp (ho.trans hd)
      | some own => exact hdevice own hd (hd ▸ ho ▸ hstill)
    · exact hp hnone

/-- A layer of the new name is first in its parent, the renamed one or another. -/
theorem leadsTo_of_turned (h : d.Renamed d' parent source target us vs)
    (hl : d.LeadsTo source device place) (hp : place.parent = parent) (hne : source ≠ target) :
    d'.LeadsTo target device place ↔
      ∀ other, target ∈ d.namesIn other → Nearer device parent other := by
  have hindex : us.length = place.index := by
    have hfirst := (leadsTo_iff.1 hl).1
    rw [hp, h.before, idxOf?_append_cons h.first] at hfirst
    exact Option.some.inj hfirst
  have hu : target ∉ us := fun hu => h.free hne (h.before ▸ List.mem_append_left _ hu)
  rw [leadsTo_iff, hp, h.namesIn_parent, idxOf?_append_cons hu, hindex, and_iff_right rfl]
  refine forall_congr' fun other => ?_
  by_cases ho : other = parent
  · subst ho
    simp [h.free hne]
  · rw [h.namesIn_of_ne ho]
    exact forall_prop_of_true ho

/-- A switch to another layer that has the new name leads there still if it is nearer than the
renamed one. -/
theorem leadsTo_target_iff (h : d.Renamed d' parent source target us vs)
    (hl : d.LeadsTo target device place) (hne : source ≠ target) :
    d'.LeadsTo target device place ↔ Nearer device place.parent parent := by
  obtain ⟨hi, hnear⟩ := leadsTo_iff.1 hl
  have hp : parent ≠ place.parent := fun hp => h.free hne (hp ▸ hl.mem_namesIn)
  rw [leadsTo_iff, h.namesIn_of_ne (Ne.symm hp), and_iff_right hi]
  refine ⟨fun hall => hall parent hp (by simp [h.namesIn_parent]), fun hn other ho hname => ?_⟩
  by_cases hparent : other = parent
  · exact hparent ▸ hn
  · exact hnear other ho (h.namesIn_of_ne hparent ▸ hname)

/-- A switch to another layer of the old name leads there still if it is not turned. -/
theorem leadsTo_source (h : d.Renamed d' parent source target us vs)
    (hl : d.LeadsTo source device place) (hp : place.parent ≠ parent) :
    d'.LeadsTo source device place := by
  refine hl.of_namesIn (congrArg _ (h.namesIn_of_ne hp)) fun other hname => ?_
  by_cases ho : other = parent
  · simp [ho, h.before]
  · exact h.namesIn_of_ne ho ▸ hname

/-- A switch by a name that is neither the old nor the new one leads where it led. -/
theorem leadsTo_of_ne (h : d.Renamed d' parent source target us vs)
    (hl : d.LeadsTo name device place) (hs : name ≠ source) (ht : name ≠ target) :
    d'.LeadsTo name device place := by
  refine hl.of_namesIn (h.idxOf?_of_ne hs ht place.parent) fun other hname => ?_
  rwa [← List.isSome_idxOf?, ← h.idxOf?_of_ne hs ht other, List.isSome_idxOf?]

/-- A switch that led to a layer leads to it still, by the name that it has then, just when no other
layer of the new name comes between. -/
theorem leadsTo_iff_not_obscures (h : d.Renamed d' parent source target us vs)
    (hl : d.LeadsTo name device place)
    (hn : ¬ d.LeavesNamesake parent source target name device place) :
    d'.LeadsTo (if d'.turns parent source device = true ∧ name = source then target else name)
      device place ↔ ¬ d.Obscures parent source target name device place := by
  by_cases hne : source = target
  · -- Nothing is renamed.
    subst hne
    have hsame : d'.namesIn = d.namesIn := by
      rw [h.after, ← h.before, Function.update_eq_self]
    have hname : (if d'.turns parent source device = true ∧ name = source then source else name) =
        name := by
      split
      · rename_i hs; exact hs.2.symm
      · rfl
    rw [hname]
    exact iff_of_true (hl.of_namesIn (by rw [hsame]) fun _ hm => hsame ▸ hm) fun ho => ho.1 rfl
  by_cases hs : name = source
  · subst hs
    by_cases hp : place.parent = parent
    · rw [if_pos ⟨h.turns_of_leadsTo hl hp hne hn, rfl⟩, h.leadsTo_of_turned hl hp hne]
      simp [Obscures, hne, hp]
    · rw [h.turns_eq_false_of_leadsTo hl hp, if_neg (by simp)]
      exact iff_of_true (h.leadsTo_source hl hp) (by simp [Obscures, hne, hp])
  · rw [if_neg fun ht => hs ht.2]
    by_cases ht : name = target
    · subst ht
      rw [h.leadsTo_target_iff hl hne]
      simp [Obscures, hne, hs]
    · exact iff_of_true (h.leadsTo_of_ne hl hs ht) (by simp [Obscures, hs, ht])

end Renamed

/-- What a rename does to the names of the layers. -/
theorem LayersAt.renamed {xs ys : List LayerBlock} {l : LayerBlock}
    {put : List LayerBlock → Document} (hp : d.LayersAt parent (xs ++ l :: ys) put)
    (hx : ∀ x ∈ xs, x.name ≠ l.name)
    (hn : l.name ≠ target → ∀ x ∈ xs ++ l :: ys, x.name ≠ target) :
    d.Renamed (put (xs ++ { l with name := target } :: ys)) parent l.name target
      (xs.map (·.name)) (ys.map (·.name)) := by
  have hlayers := hp.layersIn_put (xs ++ { l with name := target } :: ys)
  constructor
  case before => simp [namesIn, hp.layersIn_eq]
  case after =>
    funext other
    rw [namesIn, hlayers, Function.update_apply]
    split
    · simp
    · rfl
  case first => simpa using hx
  case free =>
    intro hne hmem
    rw [namesIn, hp.layersIn_eq] at hmem
    obtain ⟨x, hx, hname⟩ := List.mem_map.1 hmem
    exact hn hne x hx hname

theorem LayersAt.entriesIn_rename {xs ys : List LayerBlock} {l : LayerBlock}
    {put : List LayerBlock → Document} (hp : d.LayersAt parent (xs ++ l :: ys) put)
    (target : String) :
    (put (xs ++ { l with name := target } :: ys)).entriesIn = d.entriesIn := by
  funext device layer
  cases layer with
  | none => exact congrFun (hp.ownEntries_put _) device
  | some index =>
    rw [entriesIn, hp.layersIn_put, entriesIn]
    split
    · rename_i hd
      rw [hd, hp.layersIn_eq]
      by_cases hi : index = xs.length
      · simp [hi]
      · rw [getElem?_append_cons_of_ne hi]
    · rfl

end Document

namespace Edit

open Document

/-- After a rename, a switch that led to a layer leads to the layer at the same place just when no
other layer of the new name comes between. Switches that led, from outside a device block, to the
first of several layers of the old name there are left aside. -/
theorem leadsTo_apply_renameLayer_iff {d d' : Document} {parent : Option Nat}
    {source target : String} (ha : (Edit.renameLayer parent source target).apply d = .ok d')
    {site : EntryPlace} {name : String} (hs : d.switchAt? site = some name) {place : LayerPlace}
    (hl : d.LeadsTo name site.device place)
    (hn : ¬ d.LeavesNamesake parent source target name site.device place) :
    ∃ name', d'.switchAt? site = some name' ∧
      (d'.LeadsTo name' site.device place ↔
        ¬ d.Obscures parent source target name site.device place) := by
  cases makes_of_apply ha with
  | @renameLayer _ _ _ xs ys l put hp hname hx hfree =>
    subst hname
    have hrenamed := hp.renamed hx hfree
    refine ⟨_, ?_, (leadsTo_retarget ..).trans (hrenamed.leadsTo_iff_not_obscures hl hn)⟩
    rw [switchAt?_retarget, switchAt?, hp.entriesIn_rename, ← switchAt?, hs, Option.map_some]

/-- A switch in a layer of one device block, to a layer of another one that is renamed. -/
theorem leadsTo_renamed_device_layer :
    ∃ (d d' : Document) (site : EntryPlace) (place : LayerPlace),
      d = { devices :=
        [{ pattern := "a", layers := [{ name := "base" }, { name := "fn" }] },
          { pattern := "b", layers :=
            [{ name := "sym", entries := [{ mapping := .layerSwitch "RAlt" "fn" }] }] }] } ∧
      site = ⟨some 1, some 0, 0⟩ ∧ place = ⟨some 0, 1⟩ ∧
      (Edit.renameLayer (some 0) "fn" "nav").apply d = .ok d' ∧
      d.switchAt? site = some "fn" ∧ d.LeadsTo "fn" site.device place ∧
      ¬ d.LeavesNamesake (some 0) "fn" "nav" "fn" site.device place ∧
      ¬ d.Obscures (some 0) "fn" "nav" "fn" site.device place ∧
      ∃ name', d'.switchAt? site = some name' ∧
        (d'.LeadsTo name' site.device place ↔
          ¬ d.Obscures (some 0) "fn" "nav" "fn" site.device place) := by
  let d : Document := { devices :=
    [{ pattern := "a", layers := [{ name := "base" }, { name := "fn" }] },
      { pattern := "b", layers :=
        [{ name := "sym", entries := [{ mapping := .layerSwitch "RAlt" "fn" }] }] }] }
  have hnames (parent : Option Nat) : d.namesIn parent =
      if parent = some 0 then ["base", "fn"] else if parent = some 1 then ["sym"] else [] := by
    match parent with
    | none | some 0 | some 1 => rfl
    | some (n + 2) => simp [namesIn, layersIn, d]
  have hl : d.LeadsTo "fn" (some 1) ⟨some 0, 1⟩ := by
    refine .only (fun own hown => ?_) ?_ (fun another hname => ?_) ?_
    · simp [hnames, ← Option.some.inj hown]
    · simp [hnames]
    · rw [hnames] at hname
      grind
    · rw [hnames]; decide
  have hn : ¬ d.LeavesNamesake (some 0) "fn" "nav" "fn" (some 1) ⟨some 0, 1⟩ := by
    simp [LeavesNamesake, hnames]
  have ho : ¬ d.Obscures (some 0) "fn" "nav" "fn" (some 1) ⟨some 0, 1⟩ := by
    simp only [Obscures, hnames]
    grind
  exact ⟨d, _, ⟨some 1, some 0, 0⟩, ⟨some 0, 1⟩, rfl, rfl, rfl, rfl, rfl, hl, hn, ho,
    leadsTo_apply_renameLayer_iff rfl rfl hl hn⟩

/-- A rename outside all device blocks can turn a switch to a layer of its own device block that has
the new name. -/
theorem not_forall_rename_keeps_leadsTo :
    ¬ ∀ (d d' : Document) (parent : Option Nat) (source target : String),
      (Edit.renameLayer parent source target).apply d = .ok d' →
      ∀ (site : EntryPlace) (name : String) (place : LayerPlace),
        d.switchAt? site = some name → d.LeadsTo name site.device place →
        ∃ name', d'.switchAt? site = some name' ∧ d'.LeadsTo name' site.device place := by
  intro h
  obtain ⟨name', hs, hl⟩ := h
    { layers := [{ name := "nav" }]
      devices := [{ pattern := "kbd"
                    entries := [{ mapping := .layerSwitch "RAlt" "nav" }]
                    layers := [{ name := "arrows" }] }] }
    _ none "nav" "arrows" rfl ⟨some 0, none, 0⟩ "nav" ⟨none, 0⟩ rfl
    (.outside (fun own hown => by cases hown; decide) (by decide))
  cases hs
  have hown : ⟨none, 0⟩ = (⟨some 0, 0⟩ : LayerPlace) := hl.unique (.own (by decide))
  cases hown

end Edit

end KeyRemap
