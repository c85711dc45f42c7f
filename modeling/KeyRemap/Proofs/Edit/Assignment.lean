import KeyRemap.Proofs.Edit.Outcome

/-!
# Mappings that are set and removed

Setting a mapping changes the first entry for its key in the block at an address, or appends one
there, and nothing else in the document (`Edit.apply_setMapping`). What was put at an address is
found there again (`Document.EntriesAt.again`), so setting the mapping twice is setting it once, and
removing an entry that was appended gives back the document
(`Edit.exists_put_of_apply_setMapping`).
-/
namespace KeyRemap

theorem sameKey_iff {a b : String} :
    sameKey a b = true ↔ Vocabulary.standard.identify a = Vocabulary.standard.identify b := by
  simp [sameKey]

theorem sameKey_refl (a : String) : sameKey a a = true := sameKey_iff.2 rfl

/-- Names that mean one key mean the same keys as any other name. -/
theorem sameKey_congr {a b : String} (h : sameKey a b = true) (c : String) :
    sameKey c a = sameKey c b := by
  rw [sameKey, sameKey, sameKey_iff.1 h]

/-- A mapping that was put among entries is there already. -/
theorem putMapping_putMapping (m : Mapping) (es : List Entry) :
    putMapping m (putMapping m es) = putMapping m es := by
  obtain ⟨xs, e, ys, -, hx, -, hput⟩ | ⟨hnone, hput⟩ := putMapping_cases m es
  · rw [hput]
    exact putMapping_append_cons (e := { e with mapping := m }) hx (sameKey_refl m.source)
  · rw [hput]
    exact putMapping_append_cons (e := { mapping := m }) hnone (sameKey_refl m.source)

namespace Document

variable {d : Document} {scope : Scope} {es : List Entry} {put : List Entry → Document}

/-- The address leads to what was put there, and to the same place. -/
theorem EntriesAt.again (h : d.EntriesAt scope es put) (es' : List Entry) :
    (put es').EntriesAt scope es' put := by
  cases h with
  | global => exact .global
  | @globalLayer xs ys l h hx => exact .globalLayer (l := { l with entries := es' }) rfl hx
  | @device xs ys b h => exact .device (b := { b with entries := es' }) rfl
  | @deviceLayer xs ys b us vs l h hl hu =>
    exact .deviceLayer (b := { b with layers := us ++ { l with entries := es' } :: vs })
      (l := { l with entries := es' }) rfl rfl hu

/-- The address leads to one place. -/
theorem EntriesAt.setEntriesAt_eq (h : d.EntriesAt scope es put) (es' : List Entry) :
    d.setEntriesAt es' scope = put es' := by
  have hlayer {us vs : List LayerBlock} {l : LayerBlock} (hu : ∀ x ∈ us, x.name ≠ l.name) :
      updateFirst (·.name = l.name) ({ · with entries := es' }) (us ++ l :: vs) =
        us ++ { l with entries := es' } :: vs :=
    updateFirst_append_cons (by simpa using hu) (by simp) _
  have hblock {xs ys : List DeviceBlock} {b : DeviceBlock} (change : DeviceBlock → DeviceBlock) :
      (xs ++ b :: ys).modify xs.length change = xs ++ change b :: ys := by
    rw [List.modify_eq_take_cons_drop (by simp)]
    simp
  cases h with
  | global => rfl
  | globalLayer h hx => simp only [setEntriesAt, h, hlayer hx]
  | device h => simp only [setEntriesAt, h, hblock]
  | deviceLayer h hl hu =>
    simp only [setEntriesAt, h, hblock, DeviceBlock.setLayerEntries, hl, hlayer hu]

end Document

namespace Edit

variable {d d' : Document} {scope : Scope} {m : Mapping} {es : List Entry}
  {put : List Entry → Document}

theorem apply_setMapping (hm : m.isEmptySequence = false) (h : d.EntriesAt scope es put) :
    (Edit.setMapping scope m).apply d = .ok (put (putMapping m es)) := by
  rw [apply, hm, h.entriesAt_eq]
  exact congrArg Except.ok (h.setEntriesAt_eq _)

theorem apply_removeMapping {source : String} {xs ys : List Entry} {e : Entry}
    (h : d.EntriesAt scope (xs ++ e :: ys) put)
    (hx : ∀ x ∈ xs, sameKey x.mapping.source source = false)
    (he : sameKey e.mapping.source source = true) :
    (Edit.removeMapping scope source).apply d = .ok (put (xs ++ ys)) := by
  have hany : (xs ++ e :: ys).any (fun e => sameKey e.mapping.source source) = true := by
    simp [he]
  rw [apply, h.entriesAt_eq]
  show (if _ then _ else _) = _
  rw [if_pos hany, removeFirst_append_cons hx he]
  exact congrArg Except.ok (h.setEntriesAt_eq _)

/-- What setting a mapping does, if it can be done: in the block at the address, and nowhere else,
the first entry for the key gets the mapping, or there is none and one is appended. Doing it again
changes nothing, and an appended entry is removed under any name of its key. -/
theorem exists_put_of_apply_setMapping (h : (Edit.setMapping scope m).apply d = .ok d') :
    ∃ es put, d.EntriesAt scope es put ∧
      ((∃ xs e ys, es = xs ++ e :: ys ∧
          (∀ x ∈ xs, sameKey x.mapping.source m.source = false) ∧
          sameKey e.mapping.source m.source = true ∧
          d' = put (xs ++ { e with mapping := m } :: ys)) ∨
        (∀ e ∈ es, sameKey e.mapping.source m.source = false) ∧
          d' = put (es ++ [{ mapping := m, comments := [] }]) ∧
          ∀ source, sameKey m.source source = true →
            (Edit.removeMapping scope source).apply d' = .ok d) ∧
      (Edit.setMapping scope m).apply d' = .ok d' := by
  cases makes_of_apply h with
  | @setMapping _ _ es put hm hp =>
    refine ⟨es, put, hp, ?_, ?_⟩
    · obtain ⟨xs, e, ys, hes, hx, he, hput⟩ | ⟨hnone, hput⟩ := putMapping_cases m es
      · exact .inl ⟨xs, e, ys, hes, hx, he, congrArg put hput⟩
      · refine .inr ⟨hnone, congrArg put hput, fun source hs => ?_⟩
        rw [hput]
        have hfree : ∀ e ∈ es, sameKey e.mapping.source source = false := fun e he =>
          (sameKey_congr hs _).symm.trans (hnone e he)
        have hback := apply_removeMapping (e := { mapping := m })
          (hp.again (es ++ [{ mapping := m }])) hfree hs
        rwa [List.append_nil, hp.put_self] at hback
    · have hagain := apply_setMapping hm (hp.again (putMapping m es))
      rwa [putMapping_putMapping] at hagain

/-- An alias of a key that the first of two layers of a name does not map, though the second
does. -/
theorem exists_put_of_apply_setMapping_alias :
    ∃ d d' : Document,
      d = { devices :=
        [{ pattern := "kbd"
           layers :=
            [{ name := "nav", entries := [{ mapping := .simple "H" "Left" }] },
              { name := "nav", entries := [{ mapping := .simple "Escape" "A" }] }] }] } ∧
      (Edit.setMapping (.deviceLayer 0 "nav") (.simple "Esc" "B")).apply d = .ok d' ∧
      (Edit.setMapping (.deviceLayer 0 "nav") (.simple "Esc" "B")).apply d' = .ok d' ∧
      (Edit.removeMapping (.deviceLayer 0 "nav") "VK_Escape").apply d' = .ok d := by
  let d : Document :=
    { devices :=
      [{ pattern := "kbd"
         layers :=
          [{ name := "nav", entries := [{ mapping := .simple "H" "Left" }] },
            { name := "nav", entries := [{ mapping := .simple "Escape" "A" }] }] }] }
  have ha : (Edit.setMapping (.deviceLayer 0 "nav") (.simple "Esc" "B")).apply d = .ok _ := rfl
  obtain ⟨es, put, hp, hcases, hagain⟩ := exists_put_of_apply_setMapping ha
  have hes : [{ mapping := .simple "H" "Left" }] = es := Except.ok.inj hp.entriesAt_eq
  have hnone : ∀ e ∈ es, sameKey e.mapping.source "Esc" = false := by
    rw [← hes]
    decide +kernel
  obtain ⟨xs, e, ys, he, -, hsame, -⟩ | ⟨-, -, hback⟩ := hcases
  · have hfree := hnone e (he ▸ by simp)
    rw [Mapping.source, hfree] at hsame
    cases hsame
  · exact ⟨d, _, rfl, ha, hagain, hback "VK_Escape" (by decide +kernel)⟩

end Edit

end KeyRemap
