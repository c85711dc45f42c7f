import KeyRemap.Proofs.Script.Content

/-!
# The reader accepts the grammar

A text within the size is read just when its words are a program of the grammar, and the document
without its comments is the tree (`read_iff_program`). One direction goes through what tokens say;
the other finds, for each rule, the tokens that its words come from. Comments may stand anywhere,
so every split of the words is first turned into one of the tokens.
-/
namespace KeyRemap

/-- An entry without its comments. -/
def Entry.uncommented (e : Entry) : Entry := { e with comments := [] }

/-- A layer without comments. -/
def LayerBlock.uncommented (l : LayerBlock) : LayerBlock :=
  { l with comments := [], entries := l.entries.map Entry.uncommented, trailing := [] }

/-- A device block without comments. -/
def DeviceBlock.uncommented (d : DeviceBlock) : DeviceBlock :=
  { d with
    comments := []
    entries := d.entries.map Entry.uncommented
    layers := d.layers.map LayerBlock.uncommented
    trailing := [] }

/-- A document without comments. -/
def Document.uncommented (d : Document) : Document where
  entries := d.entries.map Entry.uncommented
  layers := d.layers.map LayerBlock.uncommented
  devices := d.devices.map DeviceBlock.uncommented

namespace Script

open Grammar

/-- The words are what the grammar has in a place, and the document is their tree. -/
def Derives (gs : List Token) (t : Document) : Place → Prop
  | .topLevel => Program gs t
  | .device => DeviceItems gs t.entries t.layers
  | .layer => Statements gs t.entries

theorem wordTokens_block {first brace : Token} (ts us vs : List Token)
    (hf : first.isComment = false) (hc : brace.lexeme = .mark .closeBrace) :
    wordTokens (first :: ts ++ us ++ brace :: vs) =
      first :: wordTokens ts ++ wordTokens us ++ [brace] ++ wordTokens vs := by
  simp [wordTokens_word hf, wordTokens_word (isComment_of_lexeme hc)]

/-- The words of what is said are those of the grammar. -/
theorem derives_of_says {place : Place} {pending : List String} {ts : List Token} {d : Document}
    (h : Says place pending ts d) : Derives (wordTokens ts) d.uncommented place := by
  induction h with
  | done place pending => cases place <;> constructor
  | comment ht _ ih => rwa [wordTokens_comment ht]
  | @statement place pending first ts us m d hf he hm _ ih =>
    rw [wordTokens_append, wordTokens_word hf]
    rw [wordsOf, wordTokens_word hf] at hm
    cases place with
    | topLevel => exact Program.statement ⟨hm⟩ ih
    | device => exact DeviceItems.statement ⟨hm⟩ ih
    | layer => exact Statements.more ⟨hm⟩ ih
  | @layer place pending first brace ts us vs name b d hp hf he hh _ hc _ ihb ih =>
    rw [wordsOf, wordTokens_word hf] at hh
    rw [wordTokens_block ts us vs hf hc]
    cases place with
    | topLevel => exact Program.layer ⟨hh, ihb, hc⟩ ih
    | device => exact DeviceItems.layer ⟨hh, ihb, hc⟩ ih
    | layer => exact absurd rfl hp
  | @device pending first brace ts us vs pattern b d hf he hh _ hc _ ihb ih =>
    rw [wordsOf, wordTokens_word hf] at hh
    rw [wordTokens_block ts us vs hf hc]
    exact Program.device ⟨hh, ihb, hc⟩ ih

/-- Tokens without words say comments. -/
theorem says_of_wordTokens_eq_nil {ts : List Token} (h : wordTokens ts = []) (place : Place)
    (pending : List String) : Says place pending ts { trailing := pending ++ remarksOf ts } := by
  have hs := Says.comments (wordTokens_eq_nil_iff.1 h) (.done place (pending ++ remarksOf ts))
  rwa [List.append_nil] at hs

/-- The tokens that a statement comes from say it first. -/
theorem exists_says_of_statementAt {place : Place} {ts gs hs : List Token} {e : Entry}
    (h : StatementAt gs e) (hw : wordTokens ts = gs ++ hs) (pending : List String) :
    ∃ vs waiting e', wordTokens vs = hs ∧ e'.uncommented = e ∧ ∀ {d : Document},
      Says place waiting vs d → Says place pending ts { d with entries := e' :: d.entries } := by
  obtain ⟨hm⟩ := h
  rename_i first gs m
  obtain ⟨cs, us, vs, rfl, hcs, hf, he, rfl, hvs⟩ := exists_clause_of_wordTokens hw
  refine ⟨vs, remarksOf us, ⟨m, pending ++ remarksOf cs, first.position⟩, hvs, rfl, fun hs => ?_⟩
  rw [← wordTokens_word hf] at hm
  exact .comments hcs (.statement hf he hm hs)

theorem exists_says_of_statements {ts gs : List Token} {es : List Entry} (h : Statements gs es)
    (hw : wordTokens ts = gs) (pending : List String) :
    ∃ d, Says .layer pending ts d ∧ d.entries.map Entry.uncommented = es := by
  induction h generalizing ts pending with
  | none => exact ⟨_, says_of_wordTokens_eq_nil hw .layer pending, rfl⟩
  | more h _ ih =>
    obtain ⟨vs, waiting, e', hvs, rfl, hsays⟩ := exists_says_of_statementAt h hw pending
    obtain ⟨d, hd, rfl⟩ := ih hvs waiting
    exact ⟨_, hsays hd, rfl⟩

/-- Where a block comes from: comments, a header, a body, and the brace that closes it. -/
theorem exists_block_of_wordTokens {first brace : Token} {ts gs bs hs : List Token}
    (h : wordTokens ts = first :: gs ++ bs ++ [brace] ++ hs) : ∃ cs us vs ws,
      ts = cs ++ (first :: us ++ vs ++ brace :: ws) ∧ (∀ c ∈ cs, c.isComment = true) ∧
      first.isComment = false ∧ EndsInWord us ∧ wordTokens us = gs ∧ wordTokens vs = bs ∧
      wordTokens ws = hs := by
  rw [List.append_assoc, List.append_assoc] at h
  obtain ⟨cs, us, xs, rfl, hcs, hf, he, hus, hxs⟩ := exists_clause_of_wordTokens h
  obtain ⟨vs, ys, rfl, -, rfl, hys⟩ := exists_of_wordTokens_append hxs
  obtain ⟨ds, ws, rfl, hds, -, hws⟩ := exists_of_wordTokens_cons hys
  refine ⟨cs, us, vs ++ ds, ws, by simp, hcs, hf, he, hus, ?_, hws⟩
  rw [wordTokens_append, wordTokens_eq_nil_iff.2 hds, List.append_nil]

/-- The tokens that a layer comes from say it first. -/
theorem exists_says_of_layer (place : Place) (hp : place ≠ .layer) {ts gs hs : List Token}
    {l : LayerBlock} (h : Layer gs l) (hw : wordTokens ts = gs ++ hs) (pending : List String) :
    ∃ vs l', wordTokens vs = hs ∧ l'.uncommented = l ∧ ∀ {d : Document}, Says place [] vs d →
      Says place pending ts { d with layers := l' :: d.layers } := by
  obtain ⟨hh, hb, hc⟩ := h
  rename_i first brace gs bs name es
  obtain ⟨cs, us, vs, ws, rfl, hcs, hf, he, rfl, hvs, hws⟩ := exists_block_of_wordTokens hw
  obtain ⟨b, hs, rfl⟩ := exists_says_of_statements hb hvs (remarksOf us)
  rw [← wordTokens_word hf] at hh
  exact ⟨ws, ⟨name, pending ++ remarksOf cs, b.entries, b.trailing, first.position⟩, hws, rfl,
    fun hd => .comments hcs (.layer hp hf he hh hs hc hd)⟩

theorem exists_says_of_deviceItems {ts gs : List Token} {es : List Entry} {ls : List LayerBlock}
    (h : DeviceItems gs es ls) (hw : wordTokens ts = gs) (pending : List String) :
    ∃ d, Says .device pending ts d ∧ d.entries.map Entry.uncommented = es ∧
      d.layers.map LayerBlock.uncommented = ls := by
  induction h generalizing ts pending with
  | none => exact ⟨_, says_of_wordTokens_eq_nil hw .device pending, rfl, rfl⟩
  | statement h _ ih =>
    obtain ⟨vs, waiting, e', hvs, rfl, hsays⟩ := exists_says_of_statementAt h hw pending
    obtain ⟨d, hd, rfl, rfl⟩ := ih hvs waiting
    exact ⟨_, hsays hd, rfl, rfl⟩
  | layer h _ ih =>
    obtain ⟨vs, l', hvs, rfl, hsays⟩ := exists_says_of_layer .device (by simp) h hw pending
    obtain ⟨d, hd, rfl, rfl⟩ := ih hvs []
    exact ⟨_, hsays hd, rfl, rfl⟩

/-- The tokens that a device block comes from say it first. -/
theorem exists_says_of_device {ts gs hs : List Token} {b : DeviceBlock} (h : Device gs b)
    (hw : wordTokens ts = gs ++ hs) (pending : List String) :
    ∃ vs b', wordTokens vs = hs ∧ b'.uncommented = b ∧ ∀ {d : Document},
      Says .topLevel [] vs d →
        Says .topLevel pending ts { d with devices := b' :: d.devices } := by
  obtain ⟨hh, hb, hc⟩ := h
  rename_i first brace gs bs pattern es ls
  obtain ⟨cs, us, vs, ws, rfl, hcs, hf, he, rfl, hvs, hws⟩ := exists_block_of_wordTokens hw
  obtain ⟨b, hs, rfl, rfl⟩ := exists_says_of_deviceItems hb hvs (remarksOf us)
  rw [← wordTokens_word hf] at hh
  exact ⟨ws, ⟨pattern, pending ++ remarksOf cs, b.entries, b.layers, b.trailing, first.position⟩,
    hws, rfl, fun hd => .comments hcs (.device hf he hh hs hc hd)⟩

theorem exists_says_of_program {ts gs : List Token} {t : Document} (h : Program gs t)
    (hw : wordTokens ts = gs) (pending : List String) :
    ∃ d, Says .topLevel pending ts d ∧ d.uncommented = t := by
  induction h generalizing ts pending with
  | none => exact ⟨_, says_of_wordTokens_eq_nil hw .topLevel pending, rfl⟩
  | statement h _ ih =>
    obtain ⟨vs, waiting, e', hvs, rfl, hsays⟩ := exists_says_of_statementAt h hw pending
    obtain ⟨d, hd, rfl⟩ := ih hvs waiting
    exact ⟨_, hsays hd, rfl⟩
  | layer h _ ih =>
    obtain ⟨vs, l', hvs, rfl, hsays⟩ := exists_says_of_layer .topLevel (by simp) h hw pending
    obtain ⟨d, hd, rfl⟩ := ih hvs []
    exact ⟨_, hsays hd, rfl⟩
  | device h _ ih =>
    obtain ⟨vs, b', hvs, rfl, hsays⟩ := exists_says_of_device h hw pending
    obtain ⟨d, hd, rfl⟩ := ih hvs []
    exact ⟨_, hsays hd, rfl⟩

/-- A text that consists of tokens and is no longer than the limit is read just when its words are
a program of the grammar. The only tree of that program is the document without its comments. -/
theorem read_iff_program {limit : Nat} {source : String} {ts : List Token}
    (hl : source.utf8ByteSize ≤ limit) (ht : tokenize source.toList = .ok ts) :
    ((∃ d, read limit source = .ok d) ↔ ∃ t, Program (wordTokens ts) t) ∧
      ∀ d, read limit source = .ok d → ∀ t, Program (wordTokens ts) t ↔ t = d.uncommented := by
  have hr (d : Document) : read limit source = .ok d ↔ Says .topLevel [] ts d := by
    simp [read_eq_ok_iff, hl, parse_eq_ok_iff, ht]
  simp only [hr]
  refine ⟨⟨?_, ?_⟩, fun d hd t => ⟨?_, ?_⟩⟩
  · rintro ⟨d, hd⟩
    exact ⟨d.uncommented, derives_of_says hd⟩
  · rintro ⟨t, h⟩
    obtain ⟨d, hd, -⟩ := exists_says_of_program h rfl []
    exact ⟨d, hd⟩
  · intro h
    obtain ⟨d', hd', rfl⟩ := exists_says_of_program h rfl []
    rw [hd'.unique hd]
  · rintro rfl
    exact derives_of_says hd

/-- A comment and a statement. -/
theorem program_iff_of_commented_map :
    ∃ ts, tokenize "/* keys */ map(\"A\", \"B\");".toList = .ok ts ∧
      ∀ t, Program (wordTokens ts) t ↔
        t = { entries := [{ mapping := .simple "A" "B", position := ⟨1, 12⟩ }] } := by
  have hr : read 64 "/* keys */ map(\"A\", \"B\");" =
      .ok { entries := [⟨.simple "A" "B", ["/* keys */"], ⟨1, 12⟩⟩] } := by decide +kernel
  obtain ⟨ts, ht, -⟩ := parse_eq_ok_iff.1 (read_eq_ok_iff.1 hr).2
  exact ⟨ts, ht, (read_iff_program (by decide) ht).2 _ hr⟩

end Script

end KeyRemap
