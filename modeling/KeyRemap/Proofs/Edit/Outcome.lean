import KeyRemap.Edit
import Mathlib.Data.List.Basic

/-!
# What an edit comes to

An address leads to one place of a document: the parts before it and behind it stay as they are
when what stands there changes (`EntriesAt`, `LayersAt`). An edit that can be made changes one such
place, adds or removes a device block, or replaces the document (`Edit.Makes`).
-/
namespace KeyRemap

section Lists

variable {α : Type} {test : α → Bool} {as : List α} {a : α}

theorem updateFirst_append_cons {xs ys : List α} (hx : ∀ x ∈ xs, test x = false)
    (ha : test a = true) (change : α → α) :
    updateFirst test change (xs ++ a :: ys) = xs ++ change a :: ys := by
  induction xs with
  | nil => simp [updateFirst, ha]
  | cons x xs ih =>
    obtain ⟨hx, hxs⟩ := List.forall_mem_cons.1 hx
    simp [updateFirst, hx, ih hxs]

/-- A list is parted at the first member that satisfies a test. -/
theorem exists_split_of_find? (h : as.find? test = some a) : ∃ xs ys, as = xs ++ a :: ys ∧
    test a = true ∧ (∀ x ∈ xs, test x = false) ∧
    ∀ change, updateFirst test change as = xs ++ change a :: ys := by
  obtain ⟨ht, xs, ys, rfl, hxs⟩ := List.find?_eq_some_iff_append.1 h
  replace hxs : ∀ x ∈ xs, test x = false := by simpa using hxs
  exact ⟨xs, ys, rfl, ht, hxs, updateFirst_append_cons hxs ht⟩

/-- A list is parted at an index. -/
theorem exists_split_of_getElem? {i : Nat} (h : as[i]? = some a) : ∃ xs ys, as = xs ++ a :: ys ∧
    xs.length = i ∧ ∀ change, as.modify i change = xs ++ change a :: ys := by
  obtain ⟨hi, rfl⟩ := List.getElem?_eq_some_iff.1 h
  refine ⟨as.take i, as.drop (i + 1), by simp, by simp; omega, fun change => ?_⟩
  exact List.modify_eq_take_cons_drop hi

/-- The first entry for the key of a mapping gets the mapping. -/
theorem putMapping_append_cons {m : Mapping} {xs ys : List Entry} {e : Entry}
    (hx : ∀ x ∈ xs, sameKey x.mapping.source m.source = false)
    (he : sameKey e.mapping.source m.source = true) :
    putMapping m (xs ++ e :: ys) = xs ++ { e with mapping := m } :: ys := by
  have hany : (xs ++ e :: ys).any (fun e => sameKey e.mapping.source m.source) = true := by
    simp [he]
  rw [putMapping, if_pos hany]
  exact updateFirst_append_cons hx he _

/-- Entries without one for the key of a mapping get one at their end. -/
theorem putMapping_of_forall {m : Mapping} {es : List Entry}
    (h : ∀ e ∈ es, sameKey e.mapping.source m.source = false) :
    putMapping m es = es ++ [{ mapping := m }] := by
  have hany : es.any (fun e => sameKey e.mapping.source m.source) = false :=
    List.any_eq_false.2 fun e he => by simp [h e he]
  rw [putMapping, if_neg (by simp [hany])]

/-- A mapping takes the place of the first one for its key, or goes to the end. -/
theorem putMapping_cases (m : Mapping) (es : List Entry) :
    (∃ xs e ys, es = xs ++ e :: ys ∧ (∀ x ∈ xs, sameKey x.mapping.source m.source = false) ∧
      sameKey e.mapping.source m.source = true ∧
      putMapping m es = xs ++ { e with mapping := m } :: ys) ∨
    ((∀ e ∈ es, sameKey e.mapping.source m.source = false) ∧
      putMapping m es = es ++ [{ mapping := m }]) := by
  cases hf : es.find? fun e => sameKey e.mapping.source m.source with
  | none =>
    have hnone : ∀ e ∈ es, sameKey e.mapping.source m.source = false := by
      simpa using List.find?_eq_none.1 hf
    exact .inr ⟨hnone, putMapping_of_forall hnone⟩
  | some e =>
    obtain ⟨xs, ys, rfl, he, hx, -⟩ := exists_split_of_find? hf
    exact .inl ⟨xs, e, ys, rfl, hx, he, putMapping_append_cons hx he⟩

theorem removeFirst_sublist (test : α → Bool) (as : List α) : (removeFirst test as).Sublist as := by
  induction as with
  | nil => exact .slnil
  | cons a as ih =>
    rw [removeFirst]
    split
    · exact List.sublist_cons_self a as
    · exact ih.cons_cons a

theorem removeFirst_append_cons {xs ys : List α} (hx : ∀ x ∈ xs, test x = false)
    (ha : test a = true) : removeFirst test (xs ++ a :: ys) = xs ++ ys := by
  induction xs with
  | nil => simp [removeFirst, ha]
  | cons x xs ih =>
    obtain ⟨hx, hxs⟩ := List.forall_mem_cons.1 hx
    simp [removeFirst, hx, ih hxs]

end Lists

namespace Document

/-- The address leads to the entries; `put` gives the document with others in their place. -/
inductive EntriesAt (d : Document) : Scope → List Entry → (List Entry → Document) → Prop
  | global : EntriesAt d .global d.entries fun es => { d with entries := es }
  | globalLayer {xs ys : List LayerBlock} {l : LayerBlock} (h : d.layers = xs ++ l :: ys)
    (hx : ∀ x ∈ xs, x.name ≠ l.name) :
    EntriesAt d (.globalLayer l.name) l.entries fun es =>
      { d with layers := xs ++ { l with entries := es } :: ys }
  | device {xs ys : List DeviceBlock} {b : DeviceBlock} (h : d.devices = xs ++ b :: ys) :
    EntriesAt d (.device xs.length) b.entries fun es =>
      { d with devices := xs ++ { b with entries := es } :: ys }
  | deviceLayer {xs ys : List DeviceBlock} {b : DeviceBlock} {us vs : List LayerBlock}
    {l : LayerBlock} (h : d.devices = xs ++ b :: ys) (hl : b.layers = us ++ l :: vs)
    (hu : ∀ x ∈ us, x.name ≠ l.name) :
    EntriesAt d (.deviceLayer xs.length l.name) l.entries fun es =>
      { d with devices :=
          xs ++ { b with layers := us ++ { l with entries := es } :: vs } :: ys }

/-- An address of layers leads to them; `put` gives the document with others in their place. -/
inductive LayersAt (d : Document) : Option Nat → List LayerBlock → (List LayerBlock → Document) →
    Prop
  | none : LayersAt d none d.layers fun ls => { d with layers := ls }
  | some {xs ys : List DeviceBlock} {b : DeviceBlock} (h : d.devices = xs ++ b :: ys) :
    LayersAt d (some xs.length) b.layers fun ls =>
      { d with devices := xs ++ { b with layers := ls } :: ys }

theorem EntriesAt.put_self {d : Document} {scope : Scope} {es : List Entry}
    {put : List Entry → Document} (h : d.EntriesAt scope es put) : put es = d := by
  cases h with
  | global => rfl
  | globalLayer h | device h => simp [← h]
  | deviceLayer h hl => simp [← h, ← hl]

theorem LayersAt.put_self {d : Document} {parent : Option Nat} {ls : List LayerBlock}
    {put : List LayerBlock → Document} (h : d.LayersAt parent ls put) : put ls = d := by
  cases h with
  | none => rfl
  | some h => simp [← h]

/-- Entries of a document with switches turned are those of the document, turned or not. -/
theorem mem_entries_retarget {d : Document} {parent : Option Nat} {source target : String}
    {e : Entry} (h : e ∈ (d.retarget parent source target).entries) :
    ∃ e' ∈ d.entries, e = e' ∨ e = e'.retarget source target := by
  simp only [retarget] at h
  split at h
  · obtain ⟨e', he, rfl⟩ := List.mem_map.1 h
    exact ⟨e', he, .inr rfl⟩
  · exact ⟨e, h, .inl rfl⟩

theorem mem_layers_retarget {d : Document} {parent : Option Nat} {source target : String}
    {l : LayerBlock} (h : l ∈ (d.retarget parent source target).layers) :
    ∃ l' ∈ d.layers, l = l' ∨ l = l'.retarget source target := by
  simp only [retarget] at h
  split at h
  · obtain ⟨l', hl, rfl⟩ := List.mem_map.1 h
    exact ⟨l', hl, .inr rfl⟩
  · exact ⟨l, h, .inl rfl⟩

theorem mem_devices_retarget {d : Document} {parent : Option Nat} {source target : String}
    {b : DeviceBlock} (h : b ∈ (d.retarget parent source target).devices) :
    ∃ b' ∈ d.devices, b = b' ∨ b = b'.retarget source target := by
  simp only [retarget] at h
  obtain ⟨⟨b', i⟩, hb, rfl⟩ := List.mem_map.1 h
  refine ⟨b', List.fst_mem_of_mem_zipIdx hb, ?_⟩
  dsimp only
  split
  · exact .inr rfl
  · exact .inl rfl

theorem exists_split_of_layer {layers : List LayerBlock} {name : String} {l : LayerBlock}
    (h : layers.find? (·.name = name) = some l) : ∃ xs ys, layers = xs ++ l :: ys ∧ l.name = name ∧
    (∀ x ∈ xs, x.name ≠ l.name) ∧
    ∀ change, updateFirst (·.name = name) change layers = xs ++ change l :: ys := by
  obtain ⟨xs, ys, rfl, ht, hxs, hu⟩ := exists_split_of_find? h
  obtain rfl : l.name = name := by simpa using ht
  exact ⟨xs, ys, rfl, rfl, by simpa using hxs, hu⟩

theorem entriesAt_setEntriesAt {d : Document} {scope : Scope} {es : List Entry}
    (h : d.entriesAt scope = .ok es) :
    EntriesAt d scope es fun es => d.setEntriesAt es scope := by
  have h : d.entriesAt? scope = some es := by
    unfold entriesAt at h
    cases he : d.entriesAt? scope with
    | some es' => rw [he] at h; cases h; rfl
    | none => rw [he] at h; simp only at h; split at h <;> (try split at h) <;> cases h
  cases scope with
  | global => cases h; exact .global
  | globalLayer name =>
    obtain ⟨l, hl, rfl⟩ := Option.map_eq_some_iff.1 h
    obtain ⟨xs, ys, hs, rfl, hx, hu⟩ := exists_split_of_layer hl
    simp only [setEntriesAt, hu]
    exact .globalLayer hs hx
  | device index =>
    obtain ⟨b, hb, rfl⟩ := Option.map_eq_some_iff.1 h
    obtain ⟨xs, ys, hs, rfl, hm⟩ := exists_split_of_getElem? hb
    simp only [setEntriesAt, hm]
    exact .device hs
  | deviceLayer index name =>
    obtain ⟨b, hb, h⟩ := Option.bind_eq_some_iff.1 h
    obtain ⟨l, hl, h⟩ := Option.bind_eq_some_iff.1 h
    cases h
    obtain ⟨xs, ys, hs, rfl, hm⟩ := exists_split_of_getElem? hb
    obtain ⟨us, vs, hus, rfl, hu, hc⟩ := exists_split_of_layer hl
    simp only [setEntriesAt, hm, DeviceBlock.setLayerEntries, hc]
    exact .deviceLayer hs hus hu

/-- The address leads to nothing else. -/
theorem EntriesAt.entriesAt_eq {d : Document} {scope : Scope} {es : List Entry}
    {put : List Entry → Document} (h : d.EntriesAt scope es put) :
    d.entriesAt scope = .ok es := by
  have hfind {xs ys : List LayerBlock} {l : LayerBlock} (hx : ∀ x ∈ xs, x.name ≠ l.name) :
      (xs ++ l :: ys).find? (·.name = l.name) = some l := by
    rw [List.find?_append, List.find?_eq_none.2 (by simpa using hx)]
    simp
  cases h with
  | global => rfl
  | globalLayer h hx => simp [entriesAt, entriesAt?, layer?, h, hfind hx]
  | device h => simp [entriesAt, entriesAt?, h]
  | deviceLayer h hl hu =>
    simp [entriesAt, entriesAt?, h, DeviceBlock.layer?, hl, hfind hu]

theorem layersAt_setLayersOf {d : Document} {parent : Option Nat} {ls : List LayerBlock}
    (h : d.layersOf parent = .ok ls) : LayersAt d parent ls fun ls => d.setLayersOf ls parent := by
  cases parent with
  | none => cases h; exact .none
  | some index =>
    cases hb : d.devices[index]? with
    | none => simp [layersOf, hb] at h
    | some b =>
      obtain rfl : b.layers = ls := by simpa [layersOf, hb] using h
      obtain ⟨xs, ys, hs, rfl, hm⟩ := exists_split_of_getElem? hb
      simp only [setLayersOf, hm]
      exact .some hs

end Document

namespace Edit

/-- Whether the edit brings a whole document. -/
def isReplace : Edit → Bool
  | .replace _ => true
  | _ => false

/-- What an edit makes of a document. -/
inductive Makes (d : Document) : Edit → Document → Prop
  | setMapping {scope : Scope} {m : Mapping} {es : List Entry} {put : List Entry → Document}
    (hm : m.isEmptySequence = false) (hp : d.EntriesAt scope es put) :
    Makes d (.setMapping scope m) (put (putMapping m es))
  | removeMapping {scope : Scope} {source : String} {es : List Entry}
    {put : List Entry → Document} (hp : d.EntriesAt scope es put)
    (hs : ∃ e ∈ es, sameKey e.mapping.source source = true) :
    Makes d (.removeMapping scope source)
      (put (removeFirst (fun e => sameKey e.mapping.source source) es))
  | addLayer {parent : Option Nat} {name : String} {ls : List LayerBlock}
    {put : List LayerBlock → Document} (hp : d.LayersAt parent ls put)
    (hn : ∀ l ∈ ls, l.name ≠ name) :
    Makes d (.addLayer parent name) (put (ls ++ [{ name := name }]))
  | renameLayer {parent : Option Nat} {source target : String} {xs ys : List LayerBlock}
    {l : LayerBlock} {put : List LayerBlock → Document}
    (hp : d.LayersAt parent (xs ++ l :: ys) put) (hl : l.name = source)
    (hx : ∀ x ∈ xs, x.name ≠ source)
    (hn : source ≠ target → ∀ l' ∈ xs ++ l :: ys, l'.name ≠ target) :
    Makes d (.renameLayer parent source target)
      ((put (xs ++ { l with name := target } :: ys)).retarget parent source target)
  | removeLayer {parent : Option Nat} {name : String} {ls : List LayerBlock}
    {put : List LayerBlock → Document} (hp : d.LayersAt parent ls put)
    (hs : ∃ l ∈ ls, l.name = name) :
    Makes d (.removeLayer parent name) (put (removeFirst (·.name = name) ls))
  | addDevice (pattern : String) :
    Makes d (.addDevice pattern) { d with devices := d.devices ++ [{ pattern := pattern }] }
  | removeDevice {xs ys : List DeviceBlock} {b : DeviceBlock} (h : d.devices = xs ++ b :: ys) :
    Makes d (.removeDevice xs.length) { d with devices := xs ++ ys }
  | replace (document : Document) : Makes d (.replace document) document

/-- What is computed step by step is computed by its first step and then the others. -/
theorem exists_of_bind_eq_ok {ε α β : Type} {x : Except ε α} {f : α → Except ε β} {b : β}
    (h : x >>= f = .ok b) : ∃ a, x = .ok a ∧ f a = .ok b := by
  cases x with
  | error e => cases h
  | ok a => exact ⟨a, rfl, h⟩

/-- An edit that can be made changes one place of the document. -/
theorem makes_of_apply {d d' : Document} {e : Edit} (h : e.apply d = .ok d') : e.Makes d d' := by
  cases e with
  | setMapping scope m =>
    rw [apply] at h
    split at h
    · cases h
    · rename_i hm
      cases he : d.entriesAt scope with
      | error reason => rw [he] at h; cases h
      | ok es =>
        rw [he] at h
        cases h
        exact .setMapping (Bool.not_eq_true _ ▸ hm) (Document.entriesAt_setEntriesAt he)
  | removeMapping scope source =>
    obtain ⟨es, he, h⟩ := exists_of_bind_eq_ok h
    dsimp only at h
    split at h
    · rename_i hs
      cases h
      exact .removeMapping (Document.entriesAt_setEntriesAt he) (by simpa using hs)
    · cases h
  | addLayer parent name =>
    obtain ⟨ls, hl, h⟩ := exists_of_bind_eq_ok h
    split at h
    · cases h
    · rename_i hn
      cases h
      exact .addLayer (Document.layersAt_setLayersOf hl) (by simpa using hn)
  | renameLayer parent source target =>
    obtain ⟨ls, hl, h⟩ := exists_of_bind_eq_ok h
    split at h
    · cases h
    · rename_i hn
      replace hn : source ≠ target → ∀ l ∈ ls, l.name ≠ target := by simpa using hn
      split at h
      · rename_i hs
        cases h
        have hf : (ls.find? (·.name = source)).isSome := by simpa using hs
        obtain ⟨l, hf⟩ := Option.isSome_iff_exists.1 hf
        obtain ⟨xs, ys, rfl, hname, hx, hu⟩ := Document.exists_split_of_layer hf
        rw [hu]
        exact .renameLayer (Document.layersAt_setLayersOf hl) hname (hname ▸ hx) hn
      · cases h
  | removeLayer parent name =>
    obtain ⟨ls, hl, h⟩ := exists_of_bind_eq_ok h
    split at h
    · rename_i hs
      cases h
      exact .removeLayer (Document.layersAt_setLayersOf hl) (by simpa using hs)
    · cases h
  | addDevice pattern => cases h; exact .addDevice pattern
  | removeDevice index =>
    rw [apply] at h
    split at h
    · rename_i hi
      cases h
      obtain ⟨xs, ys, hs, rfl, -⟩ := exists_split_of_getElem? (List.getElem?_eq_getElem hi)
      rw [hs, List.eraseIdx_append_of_length_le (Nat.le_refl _), Nat.sub_self]
      exact .removeDevice hs
    · cases h
  | replace document =>
    cases h
    exact .replace d'

end Edit

end KeyRemap
