import KeyRemap.Proofs.Script.Acceptance
import KeyRemap.Proofs.Script.RoundTrip
import KeyRemap.Proofs.Token.Places

/-!
# Comments of any text

A comment of any text is harmless: what is written of a document is read as the document but for
its comments, and what is written of the document that was read is the same text
(`parse_write_comments`). The comments come back in the form in which they were written. Written
again, they are spelled by the same tokens at the same places, for only blanks at the ends of lines
and an empty line at the end of the text are lost (`Alike`).
-/
namespace KeyRemap

open Text

namespace Script

/-- Two texts, one line beside the other, that are spelled by the same tokens. -/
inductive Alike : List (List Char) → List (List Char) → List Lexeme → Prop
  | nil : Alike [] [] []
  | cons {a b : List Char} {as bs : List (List Char)} {ls ms : List Lexeme}
    (h : ∀ p, ∃ ts : List Token, ts.map (·.lexeme) = ls ∧ Spells p (a ++ ['\n']) ts ∧
      Spells p (b ++ ['\n']) ts ∧ p.after (a ++ ['\n']) = p.after (b ++ ['\n']))
    (hs : Alike as bs ms) : Alike (a :: as) (b :: bs) (ls ++ ms)

namespace Alike

variable {as bs cs ds : List (List Char)} {ls ms : List Lexeme}

theorem append (ha : Alike as bs ls) (hc : Alike cs ds ms) :
    Alike (as ++ cs) (bs ++ ds) (ls ++ ms) := by
  induction ha with
  | nil => exact hc
  | cons h _ ih =>
    rw [List.append_assoc]
    exact .cons h ih

theorem length_eq (h : Alike as bs ls) : as.length = bs.length := by
  induction h with
  | nil => rfl
  | cons _ _ ih => simp [ih]

theorem flatMap {α : Type} {f g : α → List (List Char)} {k : α → List Lexeme} {xs : List α}
    (h : ∀ x ∈ xs, Alike (f x) (g x) (k x)) :
    Alike (xs.flatMap f) (xs.flatMap g) (xs.flatMap k) := by
  induction xs with
  | nil => exact nil
  | cons x xs ih =>
    exact (h x List.mem_cons_self).append (ih fun y hy => h y (List.mem_cons_of_mem x hy))

theorem indented (h : Alike as bs ls) (n : Nat) :
    Alike (indented n as) (indented n bs) ls := by
  induction h with
  | nil => exact nil
  | cons h _ ih =>
    refine .cons (fun p => ?_) ih
    obtain ⟨ts, hl, ha, hb, hp⟩ := h (p.after (spaces n))
    simp only [List.append_assoc]
    exact ⟨ts, hl, (Spells.spaces n p).append ha, (Spells.spaces n p).append hb,
      by rw [Position.after_append, hp, Position.after_append p]⟩

/-- Lines of known lexemes are like themselves. -/
theorem refl (h : LinesYield as ls) : Alike as as ls := by
  induction h with
  | nil => exact nil
  | cons h _ ih =>
    refine .cons (fun p => ?_) ih
    obtain ⟨ts, hl, ht⟩ := h [] p
    rw [tokenizeFrom_blank rfl, tokenizeFrom_nil, Except.map, List.append_nil] at ht
    exact ⟨ts, hl, spells_of_tokenizeFrom ht, spells_of_tokenizeFrom ht, rfl⟩

/-- Blanks behind a lexeme make no difference. -/
theorem blanksBehind (l : Lexeme) {bs : List Char} (hb : ∀ b ∈ bs, isBlank b = true)
    (hn : '\n' ∉ bs) : Alike [l.spelling] [l.spelling ++ bs] [l] := by
  change Alike [l.spelling] [l.spelling ++ bs] ([l] ++ [])
  refine .cons (fun p => ⟨[Token.place l p], rfl, ?_, ?_, ?_⟩) nil
  · exact (Spells.lexeme l p).append (.blanks (by simp [isBlank]) _)
  · have hend : ∀ c ∈ bs ++ ['\n'], isBlank c = true := by
      rw [List.forall_mem_append]
      exact ⟨hb, by simp [isBlank]⟩
    rw [List.append_assoc]
    exact (Spells.lexeme l p).append (.blanks hend _)
  · have hline := line_after hn (p.after l.spelling)
    simp [Position.step, hline]

theorem appendBlocks (ha : Alike as bs ls) {α : Type} {f g : α → List (List Char)}
    {k : α → List Lexeme} {xs : List α} (h : ∀ x ∈ xs, Alike (f x) (g x) (k x)) :
    Alike (appendBlocks as (xs.map f)) (appendBlocks bs (xs.map g)) (ls ++ xs.flatMap k) := by
  induction xs generalizing as bs ls with
  | nil => simpa [Script.appendBlocks] using ha
  | cons x xs ih =>
    have hgap : Alike (if as.isEmpty then as else as ++ [[]])
        (if bs.isEmpty then bs else bs ++ [[]]) ls := by
      simp only [← List.length_eq_zero_iff, List.isEmpty_iff, ha.length_eq]
      split
      · exact ha
      · have := ha.append (refl .blank)
        rwa [List.append_nil] at this
    have := ih (hgap.append (h x List.mem_cons_self)) fun y hy => h y (List.mem_cons_of_mem x hy)
    simpa [Script.appendBlocks] using this

/-- Texts that are alike are spelled by the same tokens. -/
theorem spells (h : Alike as bs ls) (p : Position) : ∃ ts : List Token,
    ts.map (·.lexeme) = ls ∧ Spells p (ofLines as) ts ∧ Spells p (ofLines bs) ts := by
  induction h generalizing p with
  | nil => exact ⟨[], rfl, .nil p, .nil p⟩
  | @cons a b as bs ls ms h _ ih =>
    obtain ⟨ts, hl, ha, hb, hp⟩ := h p
    obtain ⟨us, hm, has, hbs⟩ := ih (p.after (a ++ ['\n']))
    refine ⟨ts ++ us, by rw [List.map_append, hl, hm], ?_, ?_⟩
    · simpa using ha.append has
    · rw [hp] at hbs
      simpa using hb.append hbs

end Alike

/-- A comment that was written is written as it is. -/
theorem commentLines_text {comment : String} {l : Lexeme} (h : l ∈ commentLexemes comment) :
    commentLines l.text = [l.spelling] ∧ commentLexemes l.text = [l] := by
  unfold commentLexemes at h
  simp only at h
  unfold commentLines commentLexemes
  simp only [Lexeme.text, String.toList_ofList]
  split at h
  · rename_i hl
    rw [List.mem_singleton.1 h]
    simp [Lexeme.spelling, trimEnd_trimEnd, hl]
  split at h
  · rename_i hl hb
    rw [List.mem_singleton.1 h]
    simp [Lexeme.spelling, trimEnd_trimEnd, hl, hb]
  obtain ⟨line, hline, rfl⟩ := List.mem_map.1 h
  have hn : '\n' ∉ trimEnd (['/', '/', ' '] ++ trim line) := by
    intro hm
    have : '\n' ∈ trim line := by simpa using mem_of_mem_trimEnd hm
    exact notMem_newline_of_mem_lines hline (mem_of_mem_trim this)
  have hl : isLineComment (trimEnd (['/', '/', ' '] ++ trim line)) = true := by
    simp only [List.cons_append, List.nil_append] at hn ⊢
    rw [trimEnd_cons rfl, trimEnd_cons rfl] at hn ⊢
    simpa [isLineComment] using hn
  simp only [Lexeme.spelling, String.toList_ofList, trimEnd_trimEnd, hl, Bool.true_or, if_true,
    and_self]

theorem commentsLexemes_writtenComments (comments : List String) :
    commentsLexemes (writtenComments comments) = commentsLexemes comments := by
  conv_rhs => rw [← List.flatMap_singleton' (commentsLexemes comments)]
  rw [commentsLexemes, writtenComments, List.flatMap_map]
  refine List.flatMap_congr fun l hl => ?_
  obtain ⟨c, -, hc⟩ := List.mem_flatMap.1 hl
  exact (commentLines_text hc).2

theorem commentsLines_writtenComments (comments : List String) :
    commentsLines (writtenComments comments) = (commentsLexemes comments).map (·.spelling) := by
  rw [commentsLines, writtenComments, List.flatMap_map, List.map_eq_flatMap]
  refine List.flatMap_congr fun l hl => ?_
  obtain ⟨c, -, hc⟩ := List.mem_flatMap.1 hl
  exact (commentLines_text hc).1

/-- A comment and what is read of it are written alike. -/
theorem alike_commentLines (comment : String) :
    Alike ((commentLexemes comment).map (·.spelling)) (commentLines comment)
      (commentLexemes comment) := by
  have hself (l : Lexeme) : Alike [l.spelling] [l.spelling] [l] := by
    simpa using Alike.blanksBehind l (List.forall_mem_nil _) List.not_mem_nil
  unfold commentLexemes commentLines
  simp only [Bool.or_eq_true]
  split
  · rename_i hl
    rw [if_pos (.inl hl)]
    simpa [Lexeme.spelling] using hself (.lineComment (String.ofList (trimEnd comment.toList)))
  split
  · rename_i hb
    rw [if_pos (.inr hb)]
    simpa [Lexeme.spelling] using hself (.blockComment (String.ofList (trimEnd comment.toList)))
  rename_i hl hb
  rw [if_neg (not_or.2 ⟨hl, hb⟩), List.map_map, List.map_eq_flatMap, List.map_eq_flatMap,
    List.map_eq_flatMap]
  refine .flatMap fun line hline => ?_
  -- the blanks that a line of the comment ends with are no part of what is read
  obtain ⟨bs, hbs, ht⟩ := trimEnd_append_blanks (['/', '/', ' '] ++ trim line)
  have hn : '\n' ∉ ['/', '/', ' '] ++ trim line := by
    simpa using fun hm => notMem_newline_of_mem_lines hline (mem_of_mem_trim hm)
  have hbn : '\n' ∉ bs := fun hm => hn (ht ▸ List.mem_append_right _ hm)
  have := Alike.blanksBehind
    (.lineComment (String.ofList (trimEnd (['/', '/', ' '] ++ trim line)))) hbs hbn
  simpa only [Function.comp_apply, Lexeme.spelling, String.toList_ofList, ht] using this

theorem alike_commentsLines (comments : List String) :
    Alike (commentsLines (writtenComments comments)) (commentsLines comments)
      (commentsLexemes comments) := by
  rw [commentsLines_writtenComments, commentsLexemes, List.map_flatMap]
  exact .flatMap fun c _ => alike_commentLines c

theorem alike_entryLines {es : List Entry} (h : ∀ e ∈ es, e.mapping.InRange) :
    Alike ((es.map Entry.written).flatMap entryLines) (es.flatMap entryLines)
      (es.flatMap entryLexemes) := by
  rw [List.flatMap_map]
  exact .flatMap fun e he =>
    (alike_commentsLines e.comments).append (.refl (linesYield_mappingText (h e he)))

theorem alike_layerLines {l : LayerBlock} (h : ∀ e ∈ l.entries, e.mapping.InRange) :
    Alike (layerLines l.written) (layerLines l) (layerLexemes l) := by
  have hbody := (alike_entryLines h).append (alike_commentsLines l.trailing)
  have hhead := Alike.refl (linesYield_headerLine spelled_name_layer l.name)
  exact (((alike_commentsLines l.comments).append hhead).append (hbody.indented 4)).append
    (.refl linesYield_brace)

theorem alike_deviceLines {d : DeviceBlock} (he : ∀ e ∈ d.entries, e.mapping.InRange)
    (hl : ∀ l ∈ d.layers, ∀ e ∈ l.entries, e.mapping.InRange) :
    Alike (deviceLines d.written) (deviceLines d) (deviceLexemes d) := by
  have hblocks := (alike_entryLines he).appendBlocks fun l h => alike_layerLines (hl l h)
  rw [← Function.comp_def, ← List.map_map] at hblocks
  have hbody := hblocks.append (alike_commentsLines d.trailing)
  have hhead := Alike.refl (linesYield_headerLine spelled_name_device d.pattern)
  exact (((alike_commentsLines d.comments).append hhead).append (hbody.indented 4)).append
    (.refl linesYield_brace)

theorem documentLexemes_written (d : Document) : documentLexemes d.written = documentLexemes d := by
  have hentry (e : Entry) : entryLexemes e.written = entryLexemes e := by
    simp only [entryLexemes, Entry.written, commentsLexemes_writtenComments]
  have hlayer (l : LayerBlock) : layerLexemes l.written = layerLexemes l := by
    simp only [layerLexemes, LayerBlock.written, commentsLexemes_writtenComments, List.flatMap_map,
      hentry]
  have hdevice (b : DeviceBlock) : deviceLexemes b.written = deviceLexemes b := by
    simp only [deviceLexemes, DeviceBlock.written, commentsLexemes_writtenComments,
      List.flatMap_map, hentry, hlayer]
  simp only [documentLexemes, Document.written, commentsLexemes_writtenComments, List.flatMap_map,
    hentry, hlayer, hdevice]

theorem inRange_written {d : Document} (h : d.InRange) : d.written.InRange := by
  simp only [Document.InRange, Document.forall_mem_allEntries] at h ⊢
  simpa [Document.written, LayerBlock.written, DeviceBlock.written, Entry.written] using h

/-- The comments at the end of a document, below what is alike. -/
theorem Alike.spells_trailing {as bs : List (List Char)} {ls : List Lexeme} (h : Alike as bs ls)
    (comments : List String) (p : Position) : ∃ ts : List Token,
      ts.map (·.lexeme) = ls ++ commentsLexemes comments ∧
      Spells p (ofLines (Script.appendBlocks as (if (writtenComments comments).isEmpty then []
        else [commentsLines (writtenComments comments)]))) ts ∧
      Spells p (ofLines (Script.appendBlocks bs (if comments.isEmpty then []
        else [commentsLines comments]))) ts := by
  have hcomments := alike_commentsLines comments
  by_cases hw : commentsLexemes comments = []
  · obtain ⟨ts, hl, ha, hb⟩ := h.spells p
    have hwritten : writtenComments comments = [] := by rw [writtenComments, hw, List.map_nil]
    have hlines : commentsLines comments = [] := by
      have := hcomments.length_eq
      rw [hwritten] at this
      exact List.length_eq_zero_iff.1 this.symm
    refine ⟨ts, by rw [hl, hw, List.append_nil],
      by simpa [hwritten, Script.appendBlocks] using ha, ?_⟩
    -- comments of no lines leave at most an empty line
    have hnewline : ∀ c ∈ ['\n'], isBlank c = true := by simp [isBlank]
    have hblank := hb.append (.blanks hnewline _)
    rw [List.append_nil] at hblank
    rw [hlines]
    split
    · exact hb
    · by_cases hbs : bs = []
      · simpa [Script.appendBlocks, hbs] using hb
      · simpa [Script.appendBlocks, hbs] using hblank
  · have hc : comments ≠ [] := by
      rintro rfl
      exact hw rfl
    have hn : writtenComments comments ≠ [] := by simpa [writtenComments] using hw
    have hblock : ∀ _ ∈ [()], Alike (commentsLines (writtenComments comments))
        (commentsLines comments) (commentsLexemes comments) := fun _ _ => hcomments
    simpa [hc, hn] using (h.appendBlocks hblock).spells p

/-- A document and the document as it is written are spelled by the same tokens. -/
theorem exists_spells_rawText {d : Document} (h : d.InRange) (p : Position) :
    ∃ ts : List Token, ts.map (·.lexeme) = documentLexemes d ∧ Spells p (rawText d.written) ts ∧
      Spells p (rawText d) ts := by
  obtain ⟨he, hl, hd⟩ := Document.forall_mem_allEntries.1 h
  have hblocks := ((alike_entryLines he).appendBlocks fun l h =>
    alike_layerLines (hl l h)).appendBlocks fun b h => alike_deviceLines (hd b h).1 (hd b h).2
  obtain ⟨ts, hts, ha, hb⟩ := hblocks.spells_trailing d.trailing p
  refine ⟨ts, hts, ?_, ?_⟩
  · rw [← appendBlocks_append, ← appendBlocks_append, ← Function.comp_def layerLines,
      ← List.map_map, ← Function.comp_def deviceLines, ← List.map_map, ← List.append_assoc] at ha
    exact ha
  · rw [← appendBlocks_append, ← appendBlocks_append, ← List.append_assoc] at hb
    exact hb

/-- A document and the document as it is written have the same tokens. -/
theorem exists_tokenize_rawText {d : Document} (h : d.InRange) :
    ∃ ts, tokenize (rawText d.written) = .ok ts ∧ tokenize (rawText d) = .ok ts := by
  obtain ⟨ts, hl, hw, hd⟩ := exists_spells_rawText h .start
  obtain ⟨us, hu, hul⟩ := (linesYield_documentLines (inRange_written h)).tokenize_eq
  obtain ⟨vs, hv, hvl⟩ := (linesYield_documentLines h).tokenize_eq
  rw [documentLexemes_written, ← hl] at hul
  obtain rfl := hw.eq_of_tokenizeFrom hu hul
  obtain rfl := hd.eq_of_tokenizeFrom hv (hvl.trans hl.symm)
  exact ⟨_, hu, hv⟩

theorem rawText_unplaced (d : Document) : rawText d.unplaced = rawText d := by
  have hentries (es : List Entry) : (es.map Entry.unplaced).flatMap entryLines =
      es.flatMap entryLines := by
    rw [List.flatMap_map]
    rfl
  have hlayer (l : LayerBlock) : layerLines l.unplaced = layerLines l := by
    simp only [layerLines, LayerBlock.unplaced, hentries]
  have hdevice (b : DeviceBlock) : deviceLines b.unplaced = deviceLines b := by
    simp only [deviceLines, DeviceBlock.unplaced, hentries, List.map_map, Function.comp_def, hlayer]
  have hlayers : layerLines ∘ LayerBlock.unplaced = layerLines := funext hlayer
  have hdevices : deviceLines ∘ DeviceBlock.unplaced = deviceLines := funext hdevice
  simp only [rawText, documentLines, Document.unplaced, hentries, List.map_map, hlayers, hdevices]
  rfl

/-- Documents that agree are written alike. -/
theorem write_congr {a b : Document} (h : a.Agrees b) (layout : Layout) :
    write layout a = write layout b := by
  rw [write, ← rawText_unplaced a, h, rawText_unplaced b, write]

end Script

@[simp] theorem Document.unplaced_uncommented (d : Document) :
    d.uncommented.unplaced = d.unplaced.uncommented := by
  simp [unplaced, uncommented, Entry.unplaced, Entry.uncommented, LayerBlock.unplaced,
    LayerBlock.uncommented, DeviceBlock.unplaced, DeviceBlock.uncommented]

theorem Document.Agrees.uncommented {a b : Document} (h : a.Agrees b) :
    a.uncommented.Agrees b.uncommented := by
  rw [Agrees, unplaced_uncommented, h, unplaced_uncommented]

/-- Only the comments of a document are written in another form. -/
theorem Document.agrees_written_uncommented (d : Document) :
    d.written.uncommented.Agrees d.uncommented := by
  simp [Agrees, written, unplaced, uncommented, Entry.unplaced, Entry.uncommented, Entry.written,
    LayerBlock.unplaced, LayerBlock.uncommented, LayerBlock.written, DeviceBlock.unplaced,
    DeviceBlock.uncommented, DeviceBlock.written]

namespace Script

/-- What is written of a document whose macros have keys, with comments of any text, is read as a
document that differs in its comments only, and of that document the same text is written. -/
theorem parse_write_comments (layout : Layout) {d : Document} (hr : d.InRange)
    (hm : ∀ e ∈ d.allEntries, e.mapping.isEmptySequence = false) :
    ∃ d', parse (write layout d) = .ok d' ∧ d'.uncommented.Agrees d.uncommented ∧
      ∀ other, write other d' = write other d := by
  have hs : d.Sayable := fun e he => Mapping.sayable_iff.2 ⟨hr e he, hm e he⟩
  obtain ⟨d', hp, ha⟩ := exists_parse_write layout hs
  refine ⟨d', hp, ha.uncommented.trans d.agrees_written_uncommented, fun other => ?_⟩
  obtain ⟨ts, hw, hd⟩ := exists_tokenize_rawText hr
  rw [write_congr ha, write, write, other.format_of_tokenize hw, other.format_of_tokenize hd]

/-- Comments that are cut short, or that a statement stands in. -/
theorem parse_write_comments_holding_statements :
    ∃ d', parse (write {}
        { entries := [
            { mapping := .sequence "A" ["B"]
              comments := ["/* a */ map(\"C\", \"D\"); /* b */", "c\r\n*/ \"d"] },
            { mapping := .tapHold "E" "F" "G" 200 }]
          trailing := ["/*", ""] }) = .ok d' ∧
      d'.uncommented.Agrees
        { entries := [
            { mapping := .sequence "A" ["B"] },
            { mapping := .tapHold "E" "F" "G" 200 }] } ∧
      ∀ other, write other d' = write other
        { entries := [
            { mapping := .sequence "A" ["B"]
              comments := ["/* a */ map(\"C\", \"D\"); /* b */", "c\r\n*/ \"d"] },
            { mapping := .tapHold "E" "F" "G" 200 }]
          trailing := ["/*", ""] } := by
  refine parse_write_comments {} ?_ ?_
  · simp [Document.InRange, Document.allEntries, Mapping.InRange, fitsSigned]
  · simp [Document.allEntries, Mapping.isEmptySequence]

end Script

end KeyRemap
