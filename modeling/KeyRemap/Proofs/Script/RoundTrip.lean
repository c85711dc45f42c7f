import KeyRemap.Proofs.Layout.Preservation
import KeyRemap.Proofs.Script.Written

/-!
# Written documents are read back

A document whose macros have keys and whose comments have the form of comments is read back from
the text that is written of it, in any layout (`parse_write`). Every document that was read is such
a document (`writable_of_parse`).
-/
namespace KeyRemap

open Text

/-- A text with the form of a comment: two slashes, no line end and no blank at the end, or a block
comment that ends with its only closing delimiter. -/
def IsComment (comment : String) : Prop :=
  (['/', '/'] <+: comment.toList ∧ '\n' ∉ comment.toList ∧
    ∀ c ∈ comment.toList.getLast?, isBlank c = false) ∨
  ∃ body, comment.toList = ['/', '*'] ++ body ++ ['*', '/'] ∧ ¬ ['*', '/'] <:+: body

namespace Document

/-- The comments inside and outside blocks. -/
def allComments (d : Document) : List String :=
  d.allEntries.flatMap (·.comments) ++ d.allLayers.flatMap (fun l => l.comments ++ l.trailing) ++
    d.devices.flatMap (fun b => b.comments ++ b.trailing) ++ d.trailing

/-- A document that a script can hold. -/
structure Writable (d : Document) : Prop where
  sayable : d.Sayable
  comments : ∀ c ∈ d.allComments, IsComment c

namespace Writable

variable {b d : Document} {comments : List String}

theorem trailing (h : ∀ c ∈ comments, IsComment c) : Writable { trailing := comments } :=
  ⟨by simp [Sayable, allEntries], by simpa [allComments, allEntries, allLayers] using h⟩

theorem entry (h : d.Writable) {m : Mapping} (hm : m.Sayable) (hc : ∀ c ∈ comments, IsComment c)
    (p : Position) : Writable { d with entries := ⟨m, comments, p⟩ :: d.entries } := by
  obtain ⟨hs, ha⟩ := h
  refine ⟨?_, ?_⟩
  · simp only [Sayable, allEntries, List.cons_append, List.forall_mem_cons] at hs ⊢
    exact ⟨hm, hs⟩
  · simp only [allComments, allEntries, allLayers, List.cons_append, List.flatMap_cons,
      List.append_assoc, List.forall_mem_append] at ha ⊢
    exact ⟨hc, ha⟩

theorem layer (h : d.Writable) (hb : b.Writable) (hc : ∀ c ∈ comments, IsComment c)
    (name : String) (p : Position) :
    Writable { d with layers := ⟨name, comments, b.entries, b.trailing, p⟩ :: d.layers } := by
  obtain ⟨hs, ha⟩ := h
  obtain ⟨hbs, hba⟩ := hb
  refine ⟨?_, ?_⟩
  · simp only [sayable_iff, List.forall_mem_cons] at hs hbs ⊢
    exact ⟨hs.1, ⟨hbs.1, hs.2.1⟩, hs.2.2⟩
  · simp only [allComments, allEntries, allLayers, List.cons_append, List.flatMap_cons,
      List.flatMap_append, List.append_assoc, List.forall_mem_append] at ha hba ⊢
    tauto

theorem device (h : d.Writable) (hb : b.Writable) (hc : ∀ c ∈ comments, IsComment c)
    (pattern : String) (p : Position) : Writable { d with
      devices := ⟨pattern, comments, b.entries, b.layers, b.trailing, p⟩ :: d.devices } := by
  obtain ⟨hs, ha⟩ := h
  obtain ⟨hbs, hba⟩ := hb
  refine ⟨?_, ?_⟩
  · simp only [sayable_iff, List.forall_mem_cons] at hs hbs ⊢
    exact ⟨hs.1, hs.2.1, ⟨hbs.1, hbs.2.1⟩, hs.2.2⟩
  · simp only [allComments, allEntries, allLayers, List.flatMap_cons, List.flatMap_append,
      List.append_assoc, List.forall_mem_append] at ha hba ⊢
    tauto

end Writable

end Document

namespace Script

theorem trimEnd_eq_self {cs : List Char} (h : ∀ c ∈ cs.getLast?, isBlank c = false) :
    trimEnd cs = cs := by
  cases cs using List.reverseRecOn with
  | nil => rfl
  | append_singleton cs c => exact trimEnd_append_singleton (h c (by simp))

/-- A comment that has the form of one is written as it is. -/
theorem text_commentLexemes {comment : String} (h : IsComment comment) :
    (commentLexemes comment).map (·.text) = [comment] := by
  unfold commentLexemes
  rcases h with ⟨hp, hn, hl⟩ | ⟨body, hb, hn⟩
  · have hline : isLineComment comment.toList = true := by
      simpa [isLineComment, List.isPrefixOf_iff_prefix] using ⟨hp, hn⟩
    simp [trimEnd_eq_self hl, hline, Lexeme.text, Lexeme.spelling]
  · have ht : trimEnd comment.toList = comment.toList := by
      refine trimEnd_eq_self fun c hc => ?_
      rw [hb, List.getLast?_append_of_ne_nil _ (by simp)] at hc
      obtain rfl : '/' = c := by simpa using hc
      rfl
    have hblock : isBlockComment comment.toList = true :=
      isBlockComment_iff.2 ⟨body, by simpa using hb, hn⟩
    have hline : isLineComment comment.toList = false := by
      simp [isLineComment, hb]
    simp [ht, hline, hblock, Lexeme.text, Lexeme.spelling]

theorem writtenComments_eq_self {comments : List String} (h : ∀ c ∈ comments, IsComment c) :
    writtenComments comments = comments := by
  induction comments with
  | nil => rfl
  | cons c cs ih =>
    obtain ⟨hc, hcs⟩ := List.forall_mem_cons.1 h
    rw [writtenComments, commentsLexemes, List.flatMap_cons, List.map_append,
      text_commentLexemes hc]
    exact congrArg (c :: ·) (ih hcs)

/-- A comment that was read has the form of one. -/
theorem isComment_text_of_scanComment {r rest : List Char} {l : Lexeme}
    (h : scanComment r = .ok (l, rest)) : IsComment l.text := by
  unfold scanComment at h
  split at h
  · rename_i r
    cases h
    refine .inl ?_
    simp only [Lexeme.text, Lexeme.spelling, String.toList_ofList]
    refine ⟨?_, fun hn => ?_, fun c hc => isBlank_of_mem_getLast?_trimEnd hc⟩
    · simp only [List.takeWhile_cons, bne_iff_ne, ne_eq, Char.reduceEq, not_false_eq_true, if_true]
      rw [trimEnd_cons rfl, trimEnd_cons rfl]
      exact ⟨_, rfl⟩
    · simpa using List.mem_takeWhile_imp (mem_of_mem_trimEnd hn)
  · split at h
    · cases h
    · rename_i raw rest' hb
      cases h
      obtain ⟨body, rfl, hn⟩ := exists_body_of_blockBody hb
      exact .inr ⟨body, by simp [Lexeme.text, Lexeme.spelling], hn⟩
  · cases h

/-- A statement of lexemes as they are read declares what a script can say. -/
theorem sayable_of_statement {ls : List Lexeme} {m : Mapping} (h : Grammar.Statement ls m)
    (hs : ∀ l ∈ ls, l.Spelled) : m.Sayable := by
  obtain ⟨h⟩ := h
  cases h with
  | map | layerSwitch => trivial
  | tapHold source tap hold timeout a b c d =>
    obtain ⟨_, _, _, hn⟩ := hs (.number timeout d) (by simp)
    exact fitsSigned_of_scan hn
  | sequence source a hk hc =>
    obtain ⟨-, -, -, more, -, rfl⟩ := hk.exists_cons
    exact List.cons_ne_nil _ more

/-- What spelled tokens say can be written. -/
theorem writable_of_says {place : Place} {pending : List String} {ts : List Token} {d : Document}
    (h : Says place pending ts d) (hs : ∀ t ∈ ts, t.lexeme.Spelled)
    (hp : ∀ c ∈ pending, IsComment c) : d.Writable := by
  have hremarks {us : List Token} (hu : ∀ t ∈ us, t.lexeme.Spelled) :
      ∀ c ∈ remarksOf us, IsComment c := by
    simp only [remarksOf, commentTokens, List.mem_map, List.mem_filter]
    rintro _ ⟨t, ⟨ht, hc⟩, rfl⟩
    obtain ⟨_, _, _, hscan⟩ := hu t ht
    exact isComment_text_of_scanComment (scanComment_of_scan hscan hc)
  have hwords {us : List Token} (hu : ∀ t ∈ us, t.lexeme.Spelled) :
      ∀ l ∈ wordsOf us, l.Spelled := by
    simp only [wordsOf, wordTokens, List.mem_map, List.mem_filter]
    rintro _ ⟨t, ⟨ht, -⟩, rfl⟩
    exact hu t ht
  induction h with
  | done place pending => exact .trailing hp
  | @comment place pending t ts d ht _ ih =>
    obtain ⟨hst, hs⟩ := List.forall_mem_cons.1 hs
    obtain ⟨_, _, _, hscan⟩ := hst
    have hc := isComment_text_of_scanComment (scanComment_of_scan hscan ht)
    exact ih hs (List.forall_mem_append.2 ⟨hp, List.forall_mem_singleton.2 hc⟩)
  | statement hf he hm _ ih =>
    obtain ⟨hclause, hs⟩ := List.forall_mem_append.1 hs
    exact (ih hs (hremarks (List.forall_mem_cons.1 hclause).2)).entry
      (sayable_of_statement hm (hwords hclause)) hp _
  | layer hn hf he hh _ hc _ ihb ih =>
    obtain ⟨hblock, hs⟩ := List.forall_mem_append.1 hs
    obtain ⟨hclause, hbody⟩ := List.forall_mem_append.1 hblock
    have hb := ihb hbody (hremarks (List.forall_mem_cons.1 hclause).2)
    exact (ih (List.forall_mem_cons.1 hs).2 (by simp)).layer hb hp _ _
  | device hf he hh _ hc _ ihb ih =>
    obtain ⟨hblock, hs⟩ := List.forall_mem_append.1 hs
    obtain ⟨hclause, hbody⟩ := List.forall_mem_append.1 hblock
    have hb := ihb hbody (hremarks (List.forall_mem_cons.1 hclause).2)
    exact (ih (List.forall_mem_cons.1 hs).2 (by simp)).device hb hp _ _

/-- Every document that was read can be written. -/
theorem writable_of_parse {text : List Char} {d : Document} (h : parse text = .ok d) :
    d.Writable := by
  obtain ⟨ts, ht, hs⟩ := parse_eq_ok_iff.1 h
  exact writable_of_says hs (spelled_of_tokenizeFrom ht) (by simp)

theorem written_entries {es : List Entry} (h : ∀ e ∈ es, ∀ c ∈ e.comments, IsComment c) :
    es.map Entry.written = es.map Entry.unplaced :=
  List.map_congr_left fun e he => by
    simp [Entry.written, Entry.unplaced, writtenComments_eq_self (h e he)]

theorem written_layers {ls : List LayerBlock}
    (hc : ∀ l ∈ ls, (∀ c ∈ l.comments, IsComment c) ∧ ∀ c ∈ l.trailing, IsComment c)
    (he : ∀ l ∈ ls, ∀ e ∈ l.entries, ∀ c ∈ e.comments, IsComment c) :
    ls.map LayerBlock.written = ls.map LayerBlock.unplaced :=
  List.map_congr_left fun l hl => by
    simp [LayerBlock.written, LayerBlock.unplaced, writtenComments_eq_self (hc l hl).1,
      writtenComments_eq_self (hc l hl).2, written_entries (he l hl)]

theorem written_devices {bs : List DeviceBlock}
    (hc : ∀ b ∈ bs, (∀ c ∈ b.comments, IsComment c) ∧ ∀ c ∈ b.trailing, IsComment c)
    (he : ∀ b ∈ bs, b.entries.map Entry.written = b.entries.map Entry.unplaced)
    (hl : ∀ b ∈ bs, b.layers.map LayerBlock.written = b.layers.map LayerBlock.unplaced) :
    bs.map DeviceBlock.written = bs.map DeviceBlock.unplaced :=
  List.map_congr_left fun b hb => by
    simp [DeviceBlock.written, DeviceBlock.unplaced, writtenComments_eq_self (hc b hb).1,
      writtenComments_eq_self (hc b hb).2, he b hb, hl b hb]

/-- What a script can hold is written as it is, but for positions. -/
theorem written_eq_unplaced {d : Document} (h : d.Writable) : d.written = d.unplaced := by
  have hc := h.comments
  simp only [Document.allComments, Document.allEntries, Document.allLayers, List.flatMap_append,
    List.forall_mem_append, List.forall_mem_flatMap] at hc
  obtain ⟨⟨⟨⟨⟨he, hle⟩, hde⟩, hl, hdl⟩, hd⟩, ht⟩ := hc
  have hdevices := written_devices hd (fun b hb => written_entries (hde b hb).1)
    fun b hb => written_layers (hdl b hb) (hde b hb).2
  simp only [Document.written, Document.unplaced, written_entries he, written_layers hl hle,
    hdevices, writtenComments_eq_self ht]

/-- What is written of a document whose mappings a script can say is read as the document, with its
comments in the form in which they are written. -/
theorem exists_parse_write (layout : Layout) {d : Document} (h : d.Sayable) :
    ∃ d', parse (write layout d) = .ok d' ∧ d'.Agrees d.written := by
  obtain ⟨ts, ht, hl⟩ := (linesYield_documentLines h.inRange).tokenize_eq
  have hm : ts.map (·.lexeme) = (loose (documentLexemes d)).map (·.lexeme) := by
    rw [lexeme_loose]
    exact hl
  obtain ⟨d₁, hd₁, ha₁⟩ := (says_documentLexemes h).congr hm
  obtain ⟨d₂, hd₂, ha₂⟩ := layout.exists_says_format ht hd₁
  exact ⟨d₂, hd₂, ha₂.trans ha₁⟩

/-- Writing a document and reading the text gives the document, whatever the layout, if a script
can hold it, and so if it was read itself. -/
theorem parse_write (layout : Layout) {d : Document}
    (h : d.Writable ∨ ∃ text, parse text = .ok d) :
    ∃ d', parse (write layout d) = .ok d' ∧ d'.Agrees d := by
  have hw : d.Writable := by
    rcases h with h | ⟨text, h⟩
    · exact h
    · exact writable_of_parse h
  obtain ⟨d', hd, ha⟩ := exists_parse_write layout hw.sayable
  rw [written_eq_unplaced hw] at ha
  exact ⟨d', hd, ha.trans d.agrees_unplaced⟩

/-- Keys that need escapes, a list on lines of its own and comments of both forms. -/
theorem parse_write_commented :
    ∃ d', parse (write { maxLineLength := 8 }
        { entries := [{ mapping := .sequence "a\"\n" ["\\"], comments := ["// b"] }],
          trailing := ["/*\n*/"] }) = .ok d' ∧
      d'.Agrees
        { entries := [{ mapping := .sequence "a\"\n" ["\\"], comments := ["// b"] }],
          trailing := ["/*\n*/"] } := by
  have hline : IsComment "// b" := .inl ⟨by decide, by decide, by simp [isBlank]⟩
  have hblock : IsComment "/*\n*/" := .inr ⟨['\n'], rfl, by simp [← occursIn_iff, occursIn]⟩
  refine parse_write { maxLineLength := 8 } (.inl ⟨?_, ?_⟩)
  · simp [Document.Sayable, Document.allEntries, Mapping.Sayable]
  · simp [Document.allComments, Document.allEntries, Document.allLayers, hline, hblock]

end Script

end KeyRemap
