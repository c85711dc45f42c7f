import KeyRemap.Proofs.Command.Formatted
import KeyRemap.Proofs.Json.RoundTrip
import KeyRemap.Proofs.Script.Extent

/-!
# Inspected documents

What an inspection prints as JSON is read as JSON, and its document is rendered as the script of the
document that was inspected (`ofJson?_toJson_and_render`). The text side is that everything printed
is readable: nothing is nested deep, and all numbers are counts or places of the text or were in it.
-/
namespace KeyRemap

namespace Json

variable {α : Type} {depth : Nat}

theorem Readable.strings (hd : depth < 127) (texts : List String) :
    Readable depth (.strings texts) := by
  refine .array hd fun j hj => ?_
  obtain ⟨text, -, rfl⟩ := List.mem_map.1 hj
  exact .string text

theorem Readable.map (hd : depth < 127) {encode : α → Json} {as : List α}
    (h : ∀ a ∈ as, Readable (depth + 1) (encode a)) : Readable depth (.array (as.map encode)) :=
  .array hd (List.forall_mem_map.2 h)

/-- An object of which some fields may be left out. -/
theorem Readable.present (hd : depth < 127) {fields : List (String × Option Json)}
    (h : ∀ f ∈ fields, ∀ j ∈ f.2, Readable (depth + 1) j) :
    Readable depth (.object (present fields)) := by
  refine .object hd fun f hf => ?_
  obtain ⟨⟨name, value⟩, hg, hvalue⟩ := List.mem_filterMap.1 hf
  obtain ⟨j, rfl, rfl⟩ := Option.map_eq_some_iff.1 hvalue
  exact h _ hg j rfl

theorem readable_of_mem_strings₀ (hd : depth < 127) {texts : List String} :
    ∀ j ∈ strings₀ texts, Readable depth j := by
  intro j hj
  unfold strings₀ at hj
  split at hj
  · cases hj
  · cases hj
    exact .strings hd texts

theorem Readable.nat {n : Nat} (h : fitsUnsigned n = true) : Readable depth (.int n) :=
  .int (.inr h)

end Json

open Json (Readable)

variable {depth : Nat}

theorem Position.readable_toJson {p : Position} (h : p.Fits) (hd : depth < 127) :
    Readable depth p.toJson := by
  refine .object hd ?_
  simp only [List.forall_mem_cons]
  exact ⟨.nat h.1, .nat h.2, List.forall_mem_nil _⟩

theorem Mapping.readable_toJson {m : Mapping} (h : m.InRange) (hd : depth + 1 < 127) :
    Readable depth m.toJson := by
  cases m <;> refine .object (by omega) ?_ <;>
    simp only [List.forall_mem_cons]
  · exact ⟨.string _, .string _, .string _, List.forall_mem_nil _⟩
  · exact ⟨.string _, .string _, .string _, .string _, .int (.inl h), List.forall_mem_nil _⟩
  · exact ⟨.string _, .string _, .strings hd _, List.forall_mem_nil _⟩
  · exact ⟨.string _, .string _, .string _, List.forall_mem_nil _⟩

theorem Entry.readable_toJson {e : Entry} (h : e.Fits) (hd : depth + 2 < 127) :
    Readable depth e.toJson := by
  refine .present (by omega) ?_
  simp only [List.forall_mem_cons, Option.mem_some_iff, forall_eq']
  exact ⟨Mapping.readable_toJson h.1 hd, Json.readable_of_mem_strings₀ (by omega),
    Position.readable_toJson h.2 (by omega), List.forall_mem_nil _⟩

theorem LayerBlock.readable_toJson {l : LayerBlock} (h : l.Fits) (hd : depth + 4 < 127) :
    Readable depth l.toJson := by
  refine .present (by omega) ?_
  simp only [List.forall_mem_cons, Option.mem_some_iff, forall_eq']
  exact ⟨.string _, Json.readable_of_mem_strings₀ (by omega),
    .map (by omega) fun e he => Entry.readable_toJson (h.1 e he) (by omega),
    Json.readable_of_mem_strings₀ (by omega), Position.readable_toJson h.2 (by omega),
    List.forall_mem_nil _⟩

theorem DeviceBlock.readable_toJson {b : DeviceBlock} (h : b.Fits) (hd : depth + 6 < 127) :
    Readable depth b.toJson := by
  refine .present (by omega) ?_
  simp only [List.forall_mem_cons, Option.mem_some_iff, forall_eq']
  exact ⟨.string _, Json.readable_of_mem_strings₀ (by omega),
    .map (by omega) fun e he => Entry.readable_toJson (h.1 e he) (by omega),
    .map (by omega) fun l hl => LayerBlock.readable_toJson (h.2.1 l hl) (by omega),
    Json.readable_of_mem_strings₀ (by omega), Position.readable_toJson h.2.2 (by omega),
    List.forall_mem_nil _⟩

theorem Document.readable_toJson {d : Document} (h : d.Fits) (hd : depth + 8 < 127) :
    Readable depth d.toJson := by
  refine .present (by omega) ?_
  simp only [List.forall_mem_cons, Option.mem_some_iff, forall_eq']
  exact ⟨.map (by omega) fun e he => Entry.readable_toJson (h.1 e he) (by omega),
    .map (by omega) fun l hl => LayerBlock.readable_toJson (h.2.1 l hl) (by omega),
    .map (by omega) fun b hb => DeviceBlock.readable_toJson (h.2.2 b hb) (by omega),
    Json.readable_of_mem_strings₀ (by omega), List.forall_mem_nil _⟩

namespace Command

/-- Everything that an inspection prints of a document is readable, if its numbers are. -/
theorem readable_overviewJson {d : Document} (h : d.Fits)
    (hs : fitsUnsigned d.heads.length = true) : Readable 0 (overviewJson d) := by
  obtain ⟨hmappings, hlayers, hdevices⟩ := d.summary_le
  have hcount : ∀ n, n ≤ d.heads.length → fitsUnsigned n = true := by
    intro n hn
    simp only [fitsUnsigned, Bool.and_eq_true, decide_eq_true_eq] at hs ⊢
    omega
  have hsummary : Readable 1 d.summary.toJson := by
    refine .object (by decide) ?_
    simp only [List.forall_mem_cons]
    exact ⟨.nat (hcount _ hmappings), .nat (hcount _ hlayers), .nat (hcount _ hdevices),
      List.forall_mem_nil _⟩
  refine .object (by decide) ?_
  simp only [List.forall_mem_cons]
  exact ⟨hsummary, .bool _, .strings (by decide) _, .strings (by decide) _,
    Document.readable_toJson h (by decide), List.forall_mem_nil _⟩

variable {s : Settings} {p : Path} {σ : FileStore} {d : Document} {text : String}

/-- An inspection of a script that is read prints what its document holds, and changes nothing. -/
theorem run_inspect (hf : σ.find p = .ok (.file (.text text)))
    (hd : Script.read s.maxInputBytes text = .ok d) :
    (runInspect s p none true : Attempt (StateM FileStore) Outcome) σ =
      (.ok (answer (overviewJson d).lines), σ) := by
  obtain ⟨r, hr, htext, -⟩ := exists_readScript s p σ
  obtain rfl := (htext text).2 ⟨hf, (Script.read_eq_ok_iff.1 hd).1⟩
  rw [runInspect, run_bind_attempt, hr]
  simp only [hd]
  rfl

/-- A file with the JSON form of a document is rendered as the script of the document. -/
theorem run_render (hf : σ.find p = .ok (.file (.text text)))
    (hl : text.utf8ByteSize ≤ s.maxInputBytes)
    (hd : (Json.parse? text.toList).bind Document.ofJson? = some d) :
    (runRender s p none false : Attempt (StateM FileStore) Outcome) σ =
      (.ok (answer (String.ofList (Script.write s.layout d))), σ) := by
  obtain ⟨r, hr, htext⟩ := exists_read p s.maxInputBytes σ
  obtain rfl := (htext text).2 ⟨hf, hl⟩
  rw [runRender, run_bind_attempt, run_attempt, hr]
  simp only [Except.mapError, hd]
  rfl

/-- A document is decoded from its JSON form just when its timeouts and positions are integers of 64
bits. What an inspection prints for a script is read as JSON and has the JSON form of the document
that was read. Any text of this form, its own text among them, is rendered as the script of that
document. -/
theorem ofJson?_toJson_and_render (d : Document) :
    (Document.ofJson? d.toJson = some d ↔ d.Fits) ∧
    ∀ (s : Settings) (p : Path) (σ : FileStore) (source : String),
      fitsUnsigned source.utf8ByteSize = true → σ.find p = .ok (.file (.text source)) →
      Script.read s.maxInputBytes source = .ok d →
      ∃ output fields,
        (runInspect s p none true : Attempt (StateM FileStore) Outcome) σ =
          (.ok (answer output), σ) ∧
        Json.parse? output.toList = some (.object fields) ∧
        Json.unique? fields "document" = some (some d.toJson) ∧
        Document.ofJson? d.toJson = some d ∧
        Json.parse? d.toJson.lines.toList = some d.toJson ∧
        ∀ (t : Settings) (q : Path) (τ : FileStore) (text : String),
          Json.parse? text.toList = some d.toJson → τ.find q = .ok (.file (.text text)) →
          text.utf8ByteSize ≤ t.maxInputBytes →
          (runRender t q none false : Attempt (StateM FileStore) Outcome) τ =
            (.ok (answer (String.ofList (Script.write t.layout d))), τ) := by
  refine ⟨Document.ofJson?_toJson_iff, fun s p σ source hsize hf hd => ?_⟩
  have hparse := (Script.read_eq_ok_iff.1 hd).2
  have hlength : fitsUnsigned source.toList.length = true := by
    have hle := Script.length_toList_le source
    simp only [fitsUnsigned, Bool.and_eq_true, decide_eq_true_eq] at hsize ⊢
    omega
  have hfits := Script.fits_of_parse hparse hlength
  have hheads : fitsUnsigned d.heads.length = true := by
    have hle := (Script.heads_of_parse hparse).1
    simp only [fitsUnsigned, Bool.and_eq_true, decide_eq_true_eq] at hlength ⊢
    omega
  have hdecode := Document.ofJson?_toJson hfits
  refine ⟨(overviewJson d).lines, _, run_inspect hf hd,
    Json.parse?_lines (readable_overviewJson hfits hheads), rfl, hdecode,
    Json.parse?_lines (Document.readable_toJson hfits (by decide)), ?_⟩
  intro t q τ text htext hfind hle
  exact run_render hfind hle (by rw [htext, Option.bind_some, hdecode])

/-- A script with a comment above a mapping whose timeout is negative. -/
def remarked : String := "// x\ntap_hold(\"A\",\"B\",\"C\",-5);"

/-- What the script says. -/
def remarkedDocument : Document :=
  { entries := [⟨.tapHold "A" "B" "C" (-5), ["// x"], ⟨2, 1⟩⟩] }

/-- The comment, the timeout and the place are in what is printed, and the script that is rendered
has the comment and the timeout. -/
theorem render_remarkedDocument :
    let σ : FileStore := ⟨[(["k"], .file (.text remarked))]⟩
    let text := remarkedDocument.toJson.lines
    let τ : FileStore := ⟨[(["j"], .file (.text text))]⟩
    ∃ output fields,
      (runInspect {} ⟨"k"⟩ none true : Attempt (StateM FileStore) Outcome) σ =
        (.ok (answer output), σ) ∧
      Json.parse? output.toList = some (.object fields) ∧
      Json.unique? fields "document" = some (some remarkedDocument.toJson) ∧
      (runRender { maxInputBytes := text.utf8ByteSize } ⟨"j"⟩ none false :
          Attempt (StateM FileStore) Outcome) τ =
        (.ok (answer "// x\ntap_hold(\"A\", \"B\", \"C\", -5);\n"), τ) := by
  intro σ text τ
  have hparse : Script.parse remarked.toList = .ok remarkedDocument := by decide +kernel
  have hwrite : String.ofList (Script.write {} remarkedDocument) =
      "// x\ntap_hold(\"A\", \"B\", \"C\", -5);\n" := by decide +kernel
  obtain ⟨output, fields, hinspect, houtput, hfield, -, hlines, hrender⟩ :=
    (ofJson?_toJson_and_render remarkedDocument).2 {} ⟨"k"⟩ σ remarked (by decide +kernel) rfl
      (Script.read_eq_ok_iff.2 ⟨by decide +kernel, hparse⟩)
  have hrun := hrender { maxInputBytes := text.utf8ByteSize } ⟨"j"⟩ τ text hlines rfl
    (Nat.le_refl _)
  exact ⟨output, fields, hinspect, houtput, hfield, by simpa only [hwrite] using hrun⟩

end Command

end KeyRemap
