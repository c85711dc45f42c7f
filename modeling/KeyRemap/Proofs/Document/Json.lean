import KeyRemap.Document.Json
import KeyRemap.Proofs.Script.Written

/-!
# Documents come back from their JSON form

A document is what its JSON form decodes to, comments and positions included, just when its timeouts
and positions are integers of 64 bits (`Document.ofJson?_toJson_iff`). Fields are looked up by name
among those that are present, so a list that was left out and a list that was written are decoded
alike; the rest follows the nesting of documents.
-/
namespace KeyRemap

namespace Json

section Lookup

variable {α : Type} {fields : List (String × Option Json)} {name : String}

theorem filter_present (fields : List (String × Option Json)) (name : String) :
    (present fields).filter (·.1 = name) = present (fields.filter (·.1 = name)) := by
  induction fields with
  | nil => rfl
  | cons f fs ih =>
    obtain ⟨n, v⟩ := f
    by_cases hn : n = name <;> cases v <;> simp_all [present]

theorem filter_of_mem {value : Option Json} (hn : (fields.map (·.1)).Nodup)
    (hf : (name, value) ∈ fields) : fields.filter (·.1 = name) = [(name, value)] := by
  induction fields with
  | nil => cases hf
  | cons f fs ih =>
    obtain ⟨hnotMem, hn⟩ := List.nodup_cons.1 hn
    rcases List.mem_cons.1 hf with rfl | hf
    · have hnone : fs.filter (·.1 = name) = [] := by
        refine List.filter_eq_nil_iff.2 fun g hg he => hnotMem ?_
        exact List.mem_map.2 ⟨g, hg, by simpa using he⟩
      simp [hnone]
    · have hne : f.1 ≠ name := fun he => hnotMem (List.mem_map.2 ⟨_, hf, he.symm⟩)
      simp [hne, ih hn hf]

/-- A field that is present is found, and one that was left out is missed. -/
theorem unique?_present {value : Option Json} (hn : (fields.map (·.1)).Nodup)
    (hf : (name, value) ∈ fields) : unique? (present fields) name = some value := by
  rw [unique?, filter_present, filter_of_mem hn hf]
  cases value <;> rfl

theorem required?_present {j : Json} (decode : Json → Option α) (hn : (fields.map (·.1)).Nodup)
    (hf : (name, some j) ∈ fields) : required? decode (present fields) name = decode j := by
  rw [required?, unique?_present hn hf]
  rfl

theorem optional?_present {j : Json} (decode : Json → Option α) (default : α)
    (hn : (fields.map (·.1)).Nodup) (hf : (name, some j) ∈ fields) :
    optional? decode default (present fields) name = decode j := by
  rw [optional?, unique?_present hn hf]
  rfl

end Lookup

section Lists

variable {α : Type}

theorem list?_map {encode : α → Json} {decode : Json → Option α} {as : List α}
    (h : ∀ a ∈ as, decode (encode a) = some a) :
    list? decode (.array (as.map encode)) = some as := by
  have hmembers : (as.map encode).mapM decode = some as := by
    induction as with
    | nil => rfl
    | cons a as ih =>
      simp [h a List.mem_cons_self, ih fun b hb => h b (List.mem_cons_of_mem a hb)]
  rw [list?, array?, Option.bind_eq_bind, Option.bind_some, hmembers]

theorem strings?_strings (texts : List String) : strings? (.strings texts) = some texts :=
  list?_map fun _ _ => rfl

/-- An empty list is left out and decoded by default. -/
theorem optional?_strings₀ {fields : List (String × Option Json)} {name : String}
    {texts : List String} (hn : (fields.map (·.1)).Nodup)
    (hf : (name, strings₀ texts) ∈ fields) :
    optional? strings? [] (present fields) name = some texts := by
  cases texts with
  | nil =>
    rw [optional?, unique?_present hn hf]
    rfl
  | cons t ts => exact (optional?_present _ _ hn hf).trans (strings?_strings (t :: ts))

/-- What an array decodes to was decoded member by member. -/
theorem exists_decode_of_list? {decode : Json → Option α} {j : Json} {as : List α}
    (h : list? decode j = some as) : ∀ a ∈ as, ∃ i, decode i = some a := by
  obtain ⟨items, -, hitems⟩ := Option.bind_eq_some_iff.1 h
  clear h
  induction items generalizing as with
  | nil =>
    cases hitems
    simp
  | cons i is ih =>
    rw [List.mapM_cons] at hitems
    obtain ⟨b, hb, hitems⟩ := Option.bind_eq_some_iff.1 hitems
    obtain ⟨bs, hbs, hitems⟩ := Option.bind_eq_some_iff.1 hitems
    cases hitems
    exact List.forall_mem_cons.2 ⟨⟨i, hb⟩, ih hbs⟩

/-- What a field that may be absent gives is the default, or was decoded. -/
theorem eq_default_or_of_optional? {decode : Json → Option α} {default a : α}
    {fields : List (String × Json)} {name : String}
    (h : optional? decode default fields name = some a) : a = default ∨ ∃ j, decode j = some a := by
  obtain ⟨value, -, h⟩ := Option.bind_eq_some_iff.1 h
  cases value with
  | none => exact .inl (Option.some.inj h).symm
  | some j => exact .inr ⟨j, h⟩

theorem forall_mem_of_optional? {decode : Json → Option α} {P : α → Prop} {as : List α}
    {fields : List (String × Json)} {name : String} (hP : ∀ j a, decode j = some a → P a)
    (h : optional? (list? decode) [] fields name = some as) : ∀ a ∈ as, P a := by
  rcases eq_default_or_of_optional? h with rfl | ⟨j, hj⟩
  · simp
  · intro a ha
    obtain ⟨i, hi⟩ := exists_decode_of_list? hj a ha
    exact hP i a hi

theorem exists_decode_of_required? {decode : Json → Option α} {a : α}
    {fields : List (String × Json)} {name : String}
    (h : required? decode fields name = some a) : ∃ j, decode j = some a := by
  obtain ⟨value, -, h⟩ := Option.bind_eq_some_iff.1 h
  obtain ⟨j, -, h⟩ := Option.bind_eq_some_iff.1 h
  exact ⟨j, h⟩

end Lists

theorem isSound_strings (texts : List String) : (strings texts).isSound = true := by
  have hitems : areSound (texts.map .string) = true := by
    induction texts with
    | nil => rfl
    | cons t ts ih => exact ih
  exact hitems

theorem fitsSigned_of_signed? {j : Json} {i : Int} (h : j.signed? = some i) :
    fitsSigned i = true := by
  obtain ⟨value, -, h⟩ := Option.bind_eq_some_iff.1 h
  split at h
  · cases h
    assumption
  · cases h

theorem nat?_int {n : Nat} (h : fitsUnsigned n = true) : nat? (.int n) = some n := by
  simp [nat?, int?, h]

theorem fitsUnsigned_of_nat? {j : Json} {n : Nat} (h : j.nat? = some n) :
    fitsUnsigned n = true := by
  obtain ⟨value, -, h⟩ := Option.bind_eq_some_iff.1 h
  split at h
  · rename_i hv
    cases h
    have hle : 0 ≤ value := by
      simp only [fitsUnsigned, Bool.and_eq_true, decide_eq_true_eq] at hv
      exact hv.1
    rwa [Int.toNat_of_nonneg hle]
  · cases h

end Json

/-- A place whose line and column are integers of 64 bits. -/
def Position.Fits (p : Position) : Prop :=
  fitsUnsigned p.line = true ∧ fitsUnsigned p.column = true

namespace Position

theorem ofJson?_toJson {p : Position} (h : p.Fits) : ofJson? p.toJson = some p := by
  simp [toJson, ofJson?, Json.object?, Json.required?, Json.unique?, Json.nat?_int h.1,
    Json.nat?_int h.2]

theorem fits_of_ofJson? {j : Json} {p : Position} (h : ofJson? j = some p) : p.Fits := by
  simp only [ofJson?, Option.bind_eq_bind, Option.bind_eq_some_iff] at h
  obtain ⟨fields, -, line, hline, column, hcolumn, h⟩ := h
  cases h
  obtain ⟨_, hline⟩ := Json.exists_decode_of_required? hline
  obtain ⟨_, hcolumn⟩ := Json.exists_decode_of_required? hcolumn
  exact ⟨Json.fitsUnsigned_of_nat? hline, Json.fitsUnsigned_of_nat? hcolumn⟩

theorem fits_of_optional? {fields : List (String × Json)} {name : String} {p : Position}
    (h : Json.optional? ofJson? {} fields name = some p) : p.Fits := by
  rcases Json.eq_default_or_of_optional? h with rfl | ⟨_, h⟩
  · exact ⟨rfl, rfl⟩
  · exact fits_of_ofJson? h

end Position

namespace Mapping

theorem isSound_toJson (m : Mapping) : m.toJson.isSound = true := by
  cases m <;> simp [toJson, Json.isSound, Json.areSoundFields, Json.isSound_strings]

theorem ofJson?_toJson {m : Mapping} (h : m.InRange) : ofJson? m.toJson = some m := by
  cases m with
  | simple source target => rfl
  | tapHold source tap hold timeout =>
    have hsigned : (Json.int timeout).signed? = some timeout := by simpa [Json.signed?, Json.int?]
    -- The names of fields are looked up by computation; the timeout is what has to be argued.
    change (Json.int timeout).signed?.bind (fun t => some (tapHold source tap hold t)) = _
    rw [hsigned, Option.bind_some]
  | sequence source keys =>
    rw [ofJson?, isSound_toJson, if_pos rfl]
    change (Json.strings? (.strings keys)).bind (fun ks => some (sequence source ks)) = _
    rw [Json.strings?_strings, Option.bind_some]
  | layerSwitch source layer => rfl

theorem inRange_of_ofJson? {j : Json} {m : Mapping} (h : ofJson? j = some m) : m.InRange := by
  unfold ofJson? at h
  split at h
  · simp only [Option.bind_eq_bind, Option.bind_eq_some_iff] at h
    obtain ⟨fields, -, kind, -, h⟩ := h
    split at h
    · simp only [Option.bind_eq_some_iff] at h
      obtain ⟨source, -, target, -, h⟩ := h
      cases h
      trivial
    · simp only [Option.bind_eq_some_iff] at h
      obtain ⟨source, -, tap, -, hold, -, timeout, htimeout, h⟩ := h
      cases h
      obtain ⟨_, htimeout⟩ := Json.exists_decode_of_required? htimeout
      exact Json.fitsSigned_of_signed? htimeout
    · simp only [Option.bind_eq_some_iff] at h
      obtain ⟨source, -, keys, -, h⟩ := h
      cases h
      trivial
    · simp only [Option.bind_eq_some_iff] at h
      obtain ⟨source, -, layer, -, h⟩ := h
      cases h
      trivial
    · cases h
  · cases h

end Mapping

/-- An entry whose numbers are integers of 64 bits. -/
def Entry.Fits (e : Entry) : Prop := e.mapping.InRange ∧ e.position.Fits

namespace Entry

theorem ofJson?_toJson {e : Entry} (h : e.Fits) : ofJson? e.toJson = some e := by
  have hn : ([("mapping", some e.mapping.toJson), ("comments", Json.strings₀ e.comments),
      ("span", some e.position.toJson)].map (·.1)).Nodup := by simp
  simp only [toJson, ofJson?, Json.object?, Option.bind_eq_bind, Option.bind_some]
  rw [Json.required?_present _ hn (by simp : ("mapping", some e.mapping.toJson) ∈ _),
    Json.optional?_strings₀ hn (by simp : ("comments", Json.strings₀ e.comments) ∈ _),
    Json.optional?_present _ _ hn (by simp : ("span", some e.position.toJson) ∈ _),
    Mapping.ofJson?_toJson h.1, Position.ofJson?_toJson h.2]
  rfl

theorem fits_of_ofJson? {j : Json} {e : Entry} (h : ofJson? j = some e) : e.Fits := by
  simp only [ofJson?, Option.bind_eq_bind, Option.bind_eq_some_iff] at h
  obtain ⟨fields, -, mapping, hmapping, comments, -, position, hposition, h⟩ := h
  cases h
  obtain ⟨_, hmapping⟩ := Json.exists_decode_of_required? hmapping
  exact ⟨Mapping.inRange_of_ofJson? hmapping, Position.fits_of_optional? hposition⟩

end Entry

/-- A layer whose numbers are integers of 64 bits. -/
def LayerBlock.Fits (l : LayerBlock) : Prop := (∀ e ∈ l.entries, e.Fits) ∧ l.position.Fits

namespace LayerBlock

theorem ofJson?_toJson {l : LayerBlock} (h : l.Fits) : ofJson? l.toJson = some l := by
  have hn : ([("name", some (.string l.name)), ("comments", Json.strings₀ l.comments),
      ("entries", some (.array (l.entries.map Entry.toJson))),
      ("trailing_comments", Json.strings₀ l.trailing),
      ("span", some l.position.toJson)].map (·.1)).Nodup := by simp
  simp only [toJson, ofJson?, Json.object?, Option.bind_eq_bind, Option.bind_some]
  rw [Json.required?_present _ hn (by simp : ("name", some (.string l.name)) ∈ _),
    Json.optional?_strings₀ hn (by simp : ("comments", Json.strings₀ l.comments) ∈ _),
    Json.optional?_present _ _ hn
      (by simp : ("entries", some (.array (l.entries.map Entry.toJson))) ∈ _),
    Json.optional?_strings₀ hn (by simp : ("trailing_comments", Json.strings₀ l.trailing) ∈ _),
    Json.optional?_present _ _ hn (by simp : ("span", some l.position.toJson) ∈ _),
    Json.list?_map fun e he => Entry.ofJson?_toJson (h.1 e he), Position.ofJson?_toJson h.2]
  rfl

theorem fits_of_ofJson? {j : Json} {l : LayerBlock} (h : ofJson? j = some l) : l.Fits := by
  simp only [ofJson?, Option.bind_eq_bind, Option.bind_eq_some_iff] at h
  obtain ⟨fields, -, name, -, comments, -, entries, hentries, trailing, -, position, hposition,
    h⟩ := h
  cases h
  exact ⟨Json.forall_mem_of_optional? (fun _ _ => Entry.fits_of_ofJson?) hentries,
    Position.fits_of_optional? hposition⟩

end LayerBlock

/-- A device block whose numbers are integers of 64 bits. -/
def DeviceBlock.Fits (b : DeviceBlock) : Prop :=
  (∀ e ∈ b.entries, e.Fits) ∧ (∀ l ∈ b.layers, l.Fits) ∧ b.position.Fits

namespace DeviceBlock

theorem ofJson?_toJson {b : DeviceBlock} (h : b.Fits) : ofJson? b.toJson = some b := by
  have hn : ([("pattern", some (.string b.pattern)), ("comments", Json.strings₀ b.comments),
      ("entries", some (.array (b.entries.map Entry.toJson))),
      ("layers", some (.array (b.layers.map LayerBlock.toJson))),
      ("trailing_comments", Json.strings₀ b.trailing),
      ("span", some b.position.toJson)].map (·.1)).Nodup := by simp
  simp only [toJson, ofJson?, Json.object?, Option.bind_eq_bind, Option.bind_some]
  rw [Json.required?_present _ hn (by simp : ("pattern", some (.string b.pattern)) ∈ _),
    Json.optional?_strings₀ hn (by simp : ("comments", Json.strings₀ b.comments) ∈ _),
    Json.optional?_present _ _ hn
      (by simp : ("entries", some (.array (b.entries.map Entry.toJson))) ∈ _),
    Json.optional?_present _ _ hn
      (by simp : ("layers", some (.array (b.layers.map LayerBlock.toJson))) ∈ _),
    Json.optional?_strings₀ hn (by simp : ("trailing_comments", Json.strings₀ b.trailing) ∈ _),
    Json.optional?_present _ _ hn (by simp : ("span", some b.position.toJson) ∈ _),
    Json.list?_map fun e he => Entry.ofJson?_toJson (h.1 e he),
    Json.list?_map fun l hl => LayerBlock.ofJson?_toJson (h.2.1 l hl),
    Position.ofJson?_toJson h.2.2]
  rfl

theorem fits_of_ofJson? {j : Json} {b : DeviceBlock} (h : ofJson? j = some b) : b.Fits := by
  simp only [ofJson?, Option.bind_eq_bind, Option.bind_eq_some_iff] at h
  obtain ⟨fields, -, pattern, -, comments, -, entries, hentries, layers, hlayers, trailing, -,
    position, hposition, h⟩ := h
  cases h
  exact ⟨Json.forall_mem_of_optional? (fun _ _ => Entry.fits_of_ofJson?) hentries,
    Json.forall_mem_of_optional? (fun _ _ => LayerBlock.fits_of_ofJson?) hlayers,
    Position.fits_of_optional? hposition⟩

end DeviceBlock

namespace Document

/-- A document whose timeouts and positions are integers of 64 bits. -/
def Fits (d : Document) : Prop :=
  (∀ e ∈ d.entries, e.Fits) ∧ (∀ l ∈ d.layers, l.Fits) ∧ ∀ b ∈ d.devices, b.Fits

theorem ofJson?_toJson {d : Document} (h : d.Fits) : ofJson? d.toJson = some d := by
  have hn : ([("entries", some (.array (d.entries.map Entry.toJson))),
      ("layers", some (.array (d.layers.map LayerBlock.toJson))),
      ("devices", some (.array (d.devices.map DeviceBlock.toJson))),
      ("trailing_comments", Json.strings₀ d.trailing)].map (·.1)).Nodup := by simp
  simp only [toJson, ofJson?, Json.object?, Option.bind_eq_bind, Option.bind_some]
  rw [Json.optional?_present _ _ hn
      (by simp : ("entries", some (.array (d.entries.map Entry.toJson))) ∈ _),
    Json.optional?_present _ _ hn
      (by simp : ("layers", some (.array (d.layers.map LayerBlock.toJson))) ∈ _),
    Json.optional?_present _ _ hn
      (by simp : ("devices", some (.array (d.devices.map DeviceBlock.toJson))) ∈ _),
    Json.optional?_strings₀ hn (by simp : ("trailing_comments", Json.strings₀ d.trailing) ∈ _),
    Json.list?_map fun e he => Entry.ofJson?_toJson (h.1 e he),
    Json.list?_map fun l hl => LayerBlock.ofJson?_toJson (h.2.1 l hl),
    Json.list?_map fun b hb => DeviceBlock.ofJson?_toJson (h.2.2 b hb)]
  rfl

/-- Only such documents are decoded, whatever the value they are decoded from. -/
theorem fits_of_ofJson? {j : Json} {d : Document} (h : ofJson? j = some d) : d.Fits := by
  simp only [ofJson?, Option.bind_eq_bind, Option.bind_eq_some_iff] at h
  obtain ⟨fields, -, entries, hentries, layers, hlayers, devices, hdevices, trailing, -, h⟩ := h
  cases h
  exact ⟨Json.forall_mem_of_optional? (fun _ _ => Entry.fits_of_ofJson?) hentries,
    Json.forall_mem_of_optional? (fun _ _ => LayerBlock.fits_of_ofJson?) hlayers,
    Json.forall_mem_of_optional? (fun _ _ => DeviceBlock.fits_of_ofJson?) hdevices⟩

theorem ofJson?_toJson_iff {d : Document} : ofJson? d.toJson = some d ↔ d.Fits :=
  ⟨fits_of_ofJson?, ofJson?_toJson⟩

end Document

end KeyRemap
