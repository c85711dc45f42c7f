import KeyRemap.Command.Run
import KeyRemap.Proofs.Json.Spelling

/-!
# Written JSON texts are read

The text of a value gives the value back (`parse?_lines`), if its integers are of 64 bits, no number
is a decimal, nothing is flawed, and nothing is nested too deep. Two facts go through the value side
by side: the words of its text, and that these words complete it, wherever it stands.
-/
namespace KeyRemap.Json

/-- A value that its text gives back where it stands in `depth` arrays and objects. -/
inductive Readable : Nat → Json → Prop where
  | null {depth : Nat} : Readable depth .null
  | bool {depth : Nat} (value : Bool) : Readable depth (.bool value)
  | int {depth : Nat} {value : Int} (h : fitsSigned value = true ∨ fitsUnsigned value = true) :
    Readable depth (.int value)
  | string {depth : Nat} (value : String) : Readable depth (.string value)
  | array {depth : Nat} {items : List Json} (hd : depth < 127)
    (h : ∀ j ∈ items, Readable (depth + 1) j) : Readable depth (.array items)
  | object {depth : Nat} {fields : List (String × Json)} (hd : depth < 127)
    (h : ∀ f ∈ fields, Readable (depth + 1) f.2) : Readable depth (.object fields)

/-- The words bring the reader from where a value is to come to where `j` is complete. -/
def Completes (depth : Nat) (ws : List Word) (j : Json) : Prop :=
  ∀ stack phase, phase = .value ∨ phase = .firstItem →
    ws.foldlM Machine.step? ⟨stack, depth, phase⟩ = some ⟨stack, depth, .complete j⟩

/-- The text of a value at a level has words that complete the value. -/
def Recovers (depth level : Nat) (j : Json) : Prop :=
  ∃ ws, Completes depth ws j ∧ ∀ r, Ends r → Cuts (pretty level j).toList ws r

section Scalars

variable {depth level : Nat}

theorem completes_scalar (j : Json) : Completes depth [.scalar j] j := by
  rintro stack phase (rfl | rfl) <;> rfl

theorem completes_text (value : String) :
    Completes depth [.text (some value)] (.string value) := by
  rintro stack phase (rfl | rfl) <;> rfl

theorem recovers_null : Recovers depth level .null :=
  ⟨_, completes_scalar .null, fun r _ => by
    simpa [pretty, scalarText] using
      (Cuts.word rfl (by decide) : Cuts ['n', 'u', 'l', 'l'] [.scalar .null] r)⟩

theorem recovers_bool (value : Bool) : Recovers depth level (.bool value) := by
  refine ⟨_, completes_scalar (.bool value), fun r _ => ?_⟩
  cases value with
  | false =>
    simpa [pretty, scalarText] using
      (Cuts.word rfl (by decide) : Cuts ['f', 'a', 'l', 's', 'e'] [.scalar (.bool false)] r)
  | true =>
    simpa [pretty, scalarText] using
      (Cuts.word rfl (by decide) : Cuts ['t', 'r', 'u', 'e'] [.scalar (.bool true)] r)

theorem recovers_int {value : Int} (h : fitsSigned value = true ∨ fitsUnsigned value = true) :
    Recovers depth level (.int value) :=
  ⟨_, completes_scalar (.int value), fun _ hr => by
    simpa only [pretty, scalarText] using Cuts.int h hr⟩

theorem recovers_string (value : String) : Recovers depth level (.string value) :=
  ⟨_, completes_text value, fun r _ => by
    simpa only [pretty, scalarText] using Cuts.quote value r⟩

end Scalars

theorem ends_comma (r : List Char) : Ends (',' :: r) := fun _ hc => .inl (Option.some.inj hc).symm

theorem ends_lineAt (level : Nat) (r : List Char) : Ends ((lineAt level).toList ++ r) := by
  intro c hc
  rw [lineAt, String.toList_append, List.append_assoc] at hc
  exact .inr (Option.some.inj hc).symm

/-- A value, with what comes on the next line. -/
theorem cuts_last {text cs r : List Char} {ws vs : List Word}
    (htext : ∀ r, Ends r → Cuts text ws r) (h : Cuts cs vs r) (level : Nat) :
    Cuts (text ++ ((lineAt level).toList ++ cs)) (ws ++ vs) r :=
  .append (htext _ (by rw [List.append_assoc]; exact ends_lineAt level (cs ++ r))) (h.line level)

/-- A value, with what comes behind a comma. -/
theorem cuts_comma {text cs r : List Char} {ws vs : List Word}
    (htext : ∀ r, Ends r → Cuts text ws r) (h : Cuts cs vs r) :
    Cuts (text ++ ',' :: cs) (ws ++ .comma :: vs) r :=
  .append (htext _ (ends_comma (cs ++ r))) (h.mark (fun _ => rfl) (by decide))

section Arrays

variable {depth level : Nat}

/-- The members of an array, with the closing bracket on a line of its own. -/
theorem exists_words_items (hd : depth < 127) {items : List Json} (hne : items ≠ [])
    (h : ∀ j ∈ items, Recovers (depth + 1) (level + 1) j) :
    ∃ ws, (∀ stack done phase, phase = .value ∨ phase = .firstItem →
        ws.foldlM Machine.step? ⟨.array done :: stack, depth + 1, phase⟩ =
          some ⟨stack, depth, .complete (.array (done.reverse ++ items))⟩) ∧
      ∀ r, Cuts (prettyItems (level + 1) items ++ lineAt level ++ "]").toList ws r := by
  induction items with
  | nil => exact absurd rfl hne
  | cons j js ih =>
    obtain ⟨ws, hws, htext⟩ := h j List.mem_cons_self
    cases js with
    | nil =>
      refine ⟨ws ++ [.closeArray], fun stack done phase hp => ?_, fun r => ?_⟩
      · rw [List.foldlM_append, hws _ _ hp]
        have hinside : depth + 1 ≤ 127 := hd
        simp [Machine.step?, Machine.close, hinside]
      · have hclose : Cuts [']'] [.closeArray] r := .word rfl (by decide)
        have hitem := (cuts_last htext hclose level).line (level + 1)
        simpa [prettyItems] using hitem
    | cons k ks =>
      -- Behind the comma the reader expects a value, no longer the end of an array just opened.
      obtain ⟨vs, hvs, hrest⟩ := ih (by simp) fun i hi => h i (List.mem_cons_of_mem j hi)
      refine ⟨ws ++ .comma :: vs, fun stack done phase hp => ?_, fun r => ?_⟩
      · rw [List.foldlM_append, hws _ _ hp]
        have hnext := hvs stack (j :: done) .value (.inl rfl)
        simp [Machine.step?, hnext]
      · have hitem := (cuts_comma htext (hrest r)).line (level + 1)
        simpa [prettyItems] using hitem

theorem recovers_array (hd : depth < 127) {items : List Json}
    (h : ∀ j ∈ items, Recovers (depth + 1) (level + 1) j) :
    Recovers depth level (.array items) := by
  cases items with
  | nil =>
    refine ⟨[.openArray, .closeArray], ?_, fun r _ => ?_⟩
    · have hinside : depth + 1 ≤ 127 := hd
      rintro stack phase (rfl | rfl) <;>
        simp [Machine.step?, Machine.begin?, Machine.close, hinside]
    · have hclose : Cuts [']'] [.closeArray] r := .word rfl (by decide)
      have hopen : Cuts ['[', ']'] [.openArray, .closeArray] r :=
        hclose.mark (fun _ => rfl) (by decide)
      simpa [pretty, scalarText] using hopen
  | cons j js =>
    obtain ⟨ws, hws, htext⟩ := exists_words_items hd (List.cons_ne_nil j js) h
    refine ⟨.openArray :: ws, ?_, fun r _ => ?_⟩
    · rintro stack phase (rfl | rfl) <;>
        simp [Machine.step?, Machine.begin?, hws stack [] .firstItem (.inr rfl)]
    · have hopen : Cuts ('[' :: _) (.openArray :: ws) r :=
        (htext r).mark (fun _ => rfl) (by decide)
      simpa [pretty] using hopen

end Arrays

section Objects

variable {depth level : Nat}

/-- A field, with what is made of its value. -/
theorem cuts_field (name : String) {cs r : List Char} {ws : List Word} (h : Cuts cs ws r) :
    Cuts ((quote name).toList ++ ':' :: ' ' :: cs) (.text (some name) :: .colon :: ws) r := by
  have hblank : Cuts (' ' :: cs) ws r := .append (.blank (.inl rfl) (cs ++ r)) h
  exact .append (.quote name _) (hblank.mark (fun _ => rfl) (by decide))

theorem foldlM_field {ws : List Word} {j : Json} (h : Completes depth ws j) (name : String)
    (stack : List Frame) (done : List (Name × Json)) (first : Bool) :
    (.text (some name) :: .colon :: ws : List Word).foldlM Machine.step?
        ⟨stack, depth, .name done first⟩ =
      some ⟨.object done (some name) :: stack, depth, .complete j⟩ := by
  have hname : Machine.step? ⟨stack, depth, .name done first⟩ (.text (some name)) =
      some ⟨stack, depth, .colon done (some name)⟩ := by
    cases first <;> rfl
  rw [List.foldlM_cons, hname]
  exact h _ _ (.inl rfl)

/-- The fields of an object, with the closing brace on a line of its own. -/
theorem exists_words_fields (hd : depth < 127) {fields : List (String × Json)} (hne : fields ≠ [])
    (h : ∀ f ∈ fields, Recovers (depth + 1) (level + 1) f.2) :
    ∃ ws, (∀ stack done first,
        ws.foldlM Machine.step? ⟨stack, depth + 1, .name done first⟩ = some ⟨stack, depth,
          .complete (objectOf ((fields.map fun f => (some f.1, f.2)).reverse ++ done))⟩) ∧
      ∀ r, Cuts (prettyFields (level + 1) fields ++ lineAt level ++ "\x7d").toList ws r := by
  induction fields with
  | nil => exact absurd rfl hne
  | cons f fs ih =>
    obtain ⟨ws, hws, htext⟩ := h f List.mem_cons_self
    cases fs with
    | nil =>
      refine ⟨.text (some f.1) :: .colon :: (ws ++ [.closeObject]), fun stack done first => ?_,
        fun r => ?_⟩
      · rw [← List.cons_append, ← List.cons_append, List.foldlM_append, foldlM_field hws]
        have hinside : depth + 1 ≤ 127 := hd
        simp [Machine.step?, Machine.close, hinside]
      · have hclose : Cuts ['\x7d'] [.closeObject] r := .word rfl (by decide)
        have hfield := cuts_field f.1 (cuts_last htext hclose level)
        simpa [prettyFields] using hfield.line (level + 1)
    | cons g gs =>
      obtain ⟨vs, hvs, hrest⟩ := ih (by simp) fun i hi => h i (List.mem_cons_of_mem f hi)
      refine ⟨.text (some f.1) :: .colon :: (ws ++ .comma :: vs), fun stack done first => ?_,
        fun r => ?_⟩
      · rw [← List.cons_append, ← List.cons_append, List.foldlM_append, foldlM_field hws]
        have hnext := hvs stack ((some f.1, f.2) :: done) false
        simp [Machine.step?, hnext]
      · have hfield := cuts_field f.1 (cuts_comma htext (hrest r))
        simpa [prettyFields] using hfield.line (level + 1)

/-- Fields that all have names make up an object. -/
theorem objectOf_named (fields : List (String × Json)) :
    objectOf (fields.map fun f => (some f.1, f.2)).reverse = .object fields := by
  have hnamed : fields.mapM some = some fields := by
    simpa using (List.mapM_pure : fields.mapM (fun f => (pure (id f) : Option _)) = _)
  rw [objectOf, List.reverse_reverse, List.mapM_map]
  simp only [Function.comp_def, Option.map_some, hnamed]

theorem recovers_object (hd : depth < 127) {fields : List (String × Json)}
    (h : ∀ f ∈ fields, Recovers (depth + 1) (level + 1) f.2) :
    Recovers depth level (.object fields) := by
  cases fields with
  | nil =>
    refine ⟨[.openObject, .closeObject], ?_, fun r _ => ?_⟩
    · have hinside : depth + 1 ≤ 127 := hd
      rintro stack phase (rfl | rfl) <;>
        simp [Machine.step?, Machine.begin?, Machine.close, hinside, objectOf]
    · have hclose : Cuts ['\x7d'] [.closeObject] r := .word rfl (by decide)
      have hopen : Cuts ['\x7b', '\x7d'] [.openObject, .closeObject] r :=
        hclose.mark (fun _ => rfl) (by decide)
      simpa [pretty, scalarText] using hopen
  | cons f fs =>
    obtain ⟨ws, hws, htext⟩ := exists_words_fields hd (List.cons_ne_nil f fs) h
    refine ⟨.openObject :: ws, ?_, fun r _ => ?_⟩
    · have hfields := fun stack => hws stack [] true
      simp only [List.append_nil, objectOf_named] at hfields
      rintro stack phase (rfl | rfl) <;> simp [Machine.step?, Machine.begin?, hfields]
    · have hopen : Cuts ('\x7b' :: _) (.openObject :: ws) r :=
        (htext r).mark (fun _ => rfl) (by decide)
      simpa [pretty] using hopen

end Objects

/-- Each level of a value adds one array or object around its members. -/
theorem Readable.recovers {depth : Nat} {j : Json} (h : Readable depth j) (level : Nat) :
    Recovers depth level j := by
  induction h generalizing level with
  | null => exact recovers_null
  | bool value => exact recovers_bool value
  | int h => exact recovers_int h
  | string value => exact recovers_string value
  | array hd _ ih => exact recovers_array hd fun j hj => ih j hj (level + 1)
  | object hd _ ih => exact recovers_object hd fun f hf => ih f hf (level + 1)

/-- The text of a value on lines of its own gives the value. -/
theorem parse?_lines {j : Json} (h : Readable 0 j) : parse? j.lines.toList = some j := by
  obtain ⟨ws, hws, htext⟩ := h.recovers 0
  have hend : Cuts ['\n'] [] [] := .blank (.inr rfl) []
  have hlines : Cuts j.lines.toList ws [] := by
    have hends : Ends (['\n'] ++ []) := fun c hc => .inr (Option.some.inj hc).symm
    simpa [lines] using (htext _ hends).append hend
  rw [parse?, hlines.words?_eq, Option.bind_eq_bind, Option.bind_some, hws [] .value (.inl rfl)]
  rfl

end KeyRemap.Json
