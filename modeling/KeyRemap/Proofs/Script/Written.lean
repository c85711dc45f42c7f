import KeyRemap.Proofs.Layout.Lexemes
import KeyRemap.Proofs.Script.Lexemes
import KeyRemap.Proofs.Script.Words

/-!
# What a written document says

The text of a document consists of the lexemes of its statements, headers and comments
(`linesYield_documentLines`), and these say the document, each comment in the form in which it is
written (`says_documentLexemes`). Both follow the nesting of the document: comments and mappings,
entries, layers, device blocks.
-/
namespace KeyRemap

/-- A mapping that a script can say: its keys are not missing, its timeout is in the range of
numbers. -/
def Mapping.Sayable : Mapping → Prop
  | .tapHold _ _ _ timeout => fitsSigned timeout = true
  | .sequence _ keys => keys ≠ []
  | _ => True

/-- A mapping whose timeout, if it has one, is in the range of numbers. -/
def Mapping.InRange : Mapping → Prop
  | .tapHold _ _ _ timeout => fitsSigned timeout = true
  | _ => True

theorem Mapping.sayable_iff {m : Mapping} :
    m.Sayable ↔ m.InRange ∧ m.isEmptySequence = false := by
  cases m <;> simp [Sayable, InRange, isEmptySequence]

namespace Document

/-- The entries inside and outside blocks. -/
def allEntries (d : Document) : List Entry :=
  d.entries ++ d.layers.flatMap (·.entries) ++
    d.devices.flatMap fun b => b.entries ++ b.layers.flatMap (·.entries)

theorem forall_mem_allEntries {P : Entry → Prop} {d : Document} : (∀ e ∈ d.allEntries, P e) ↔
    (∀ e ∈ d.entries, P e) ∧ (∀ l ∈ d.layers, ∀ e ∈ l.entries, P e) ∧
      ∀ b ∈ d.devices, (∀ e ∈ b.entries, P e) ∧ ∀ l ∈ b.layers, ∀ e ∈ l.entries, P e := by
  simp only [allEntries, List.forall_mem_append, List.forall_mem_flatMap, and_assoc]

/-- A document whose mappings a script can say. -/
def Sayable (d : Document) : Prop := ∀ e ∈ d.allEntries, e.mapping.Sayable

theorem sayable_iff {d : Document} : d.Sayable ↔ (∀ e ∈ d.entries, e.mapping.Sayable) ∧
    (∀ l ∈ d.layers, ∀ e ∈ l.entries, e.mapping.Sayable) ∧
    ∀ b ∈ d.devices, (∀ e ∈ b.entries, e.mapping.Sayable) ∧
      ∀ l ∈ b.layers, ∀ e ∈ l.entries, e.mapping.Sayable := forall_mem_allEntries

/-- A document whose timeouts are in the range of numbers. -/
def InRange (d : Document) : Prop := ∀ e ∈ d.allEntries, e.mapping.InRange

theorem Sayable.inRange {d : Document} (h : d.Sayable) : d.InRange := fun e he =>
  (Mapping.sayable_iff.1 (h e he)).1

end Document

namespace Script

open Text Layout

/-- The lexemes of keys with commas between them. -/
def keyLexemes : List String → List Lexeme
  | [] => []
  | [k] => [quoted k]
  | k :: ks => quoted k :: .mark .comma :: keyLexemes ks

/-- The lexemes between the parentheses of a call. -/
def argumentLexemes : Mapping → List Lexeme
  | .simple source target => [quoted source, .mark .comma, quoted target]
  | .tapHold source tap hold timeout =>
    [quoted source, .mark .comma, quoted tap, .mark .comma, quoted hold, .mark .comma,
      number timeout]
  | .sequence source keys =>
    [quoted source, .mark .comma, .mark .openBracket] ++ keyLexemes keys ++ [.mark .closeBracket]
  | .layerSwitch source layer => [quoted source, .mark .comma, quoted layer]

/-- The lexemes of a statement. -/
def mappingLexemes (m : Mapping) : List Lexeme :=
  [.name m.form.name, .mark .openParen] ++ argumentLexemes m ++
    [.mark .closeParen, .mark .semicolon]

/-- A text that is read as lexemes in front of a mark. -/
def Reads (cs : List Char) (ls : List Lexeme) : Prop := ∀ x, Stops x → Yields cs ls x

namespace Reads

theorem lexeme {l : Lexeme} (hs : l.Spelled) (hc : l.isLineComment = false) :
    Reads l.spelling [l] := fun _ hx => .lexeme hs (endsBefore_of_stops hc hx)

theorem quote (s : String) : Reads (Script.quote s) [quoted s] := by
  simpa using lexeme (spelled_quoted s) rfl

/-- Marks are read in front of anything. -/
theorem mark_append {cs x : List Char} {ls : List Lexeme} (h : Yields cs ls x) (m : Mark) :
    Yields (m.char :: cs) (.mark m :: ls) x :=
  (Yields.lexeme (Lexeme.spelled_mark m) trivial).append h

/-- Names are read in front of an opening parenthesis. -/
theorem name_append {word : String} (h : (Lexeme.name word).Spelled) {cs x : List Char}
    {ls : List Lexeme} (hc : Yields ('(' :: cs) ls x) :
    Yields (word.toList ++ '(' :: cs) (.name word :: ls) x :=
  (Yields.lexeme h (stops_mark .openParen (cs ++ x))).append hc

/-- Two texts with a comma and a space between them. -/
theorem comma {as bs : List Char} {ls ms : List Lexeme} (ha : Reads as ls) (hb : Reads bs ms) :
    Reads (as ++ [',', ' '] ++ bs) (ls ++ .mark .comma :: ms) := by
  intro x hx
  have hs : Yields (' ' :: bs) ms x := (Yields.spaces 1 _).append (hb x hx)
  have := (ha (',' :: ' ' :: bs ++ x) (stops_mark .comma _)).append (mark_append hs .comma)
  simpa using this

end Reads

theorem reads_keys (keys : List String) :
    Reads (separated [',', ' '] (keys.map Script.quote)) (keyLexemes keys) := by
  induction keys with
  | nil => exact fun x _ => .nil x
  | cons k ks ih =>
    cases ks with
    | nil => exact .quote k
    | cons k' ks => exact Reads.comma (.quote k) ih

theorem reads_arguments {m : Mapping} (h : m.InRange) :
    Reads (separated [',', ' '] (argumentTexts m)) (argumentLexemes m) := by
  cases m with
  | simple source target => exact .comma (.quote source) (.quote target)
  | layerSwitch source layer => exact .comma (.quote source) (.quote layer)
  | tapHold source tap hold timeout =>
    have hn := Reads.lexeme (spelled_number h) rfl
    rw [spelling_number] at hn
    exact .comma (.quote source) (.comma (.quote tap) (.comma (.quote hold) hn))
  | sequence source keys =>
    refine .comma (.quote source) fun x _ => ?_
    have hc := Reads.mark_append (.nil x) .closeBracket
    have hk := reads_keys keys _ (stops_mark .closeBracket x)
    exact Reads.mark_append (hk.append hc) .openBracket

theorem linesYield_mappingText {m : Mapping} (h : m.InRange) :
    LinesYield [mappingText m] (mappingLexemes m) := by
  refine .single fun x => ?_
  have hend : Yields [')', ';'] [.mark .closeParen, .mark .semicolon] ('\n' :: x) :=
    Reads.mark_append (Reads.mark_append (.nil _) .semicolon) .closeParen
  have harg := (reads_arguments h _ (stops_mark .closeParen (';' :: '\n' :: x))).append hend
  have hname := Reads.name_append (spelled_name_form m.form) (Reads.mark_append harg .openParen)
  simpa [mappingText, mappingLexemes] using hname

/-- The lexemes of a header. -/
def headerLexemes (word name : String) : List Lexeme :=
  [.name word, .mark .openParen, quoted name, .mark .closeParen, .mark .openBrace]

theorem linesYield_headerLine {word : String} (h : (Lexeme.name word).Spelled) (name : String) :
    LinesYield [headerLine word name] (headerLexemes word name) := by
  refine .single fun x => ?_
  have hbrace : Yields [' ', '\x7b'] [.mark .openBrace] ('\n' :: x) :=
    (Yields.spaces 1 _).append (Reads.mark_append (.nil _) .openBrace)
  have hclose := Reads.mark_append hbrace .closeParen
  have harg := (Reads.quote name _ (stops_mark .closeParen _)).append hclose
  have hname := Reads.name_append h (Reads.mark_append harg .openParen)
  simpa [headerLine, headerLexemes, Mark.char] using hname

theorem linesYield_brace : LinesYield [['\x7d']] [.mark .closeBrace] :=
  .single fun _ => Reads.mark_append (.nil _) .closeBrace

/-- The lexemes of comments. -/
def commentsLexemes (comments : List String) : List Lexeme := comments.flatMap commentLexemes

/-- The lexemes of an entry. -/
def entryLexemes (e : Entry) : List Lexeme :=
  commentsLexemes e.comments ++ mappingLexemes e.mapping

/-- The lexemes of a layer. -/
def layerLexemes (l : LayerBlock) : List Lexeme :=
  commentsLexemes l.comments ++ headerLexemes "layer" l.name ++
    (l.entries.flatMap entryLexemes ++ commentsLexemes l.trailing) ++ [.mark .closeBrace]

/-- The lexemes of a device block. -/
def deviceLexemes (d : DeviceBlock) : List Lexeme :=
  commentsLexemes d.comments ++ headerLexemes "device" d.pattern ++
    (d.entries.flatMap entryLexemes ++ d.layers.flatMap layerLexemes ++
      commentsLexemes d.trailing) ++ [.mark .closeBrace]

/-- The lexemes of a document. -/
def documentLexemes (d : Document) : List Lexeme :=
  d.entries.flatMap entryLexemes ++ d.layers.flatMap layerLexemes ++
    d.devices.flatMap deviceLexemes ++ commentsLexemes d.trailing

theorem linesYield_commentsLines (comments : List String) :
    LinesYield (commentsLines comments) (commentsLexemes comments) :=
  .flatMap fun c _ => linesYield_commentLines c

theorem linesYield_entryLines {es : List Entry} (h : ∀ e ∈ es, e.mapping.InRange) :
    LinesYield (es.flatMap entryLines) (es.flatMap entryLexemes) :=
  .flatMap fun e he =>
    (linesYield_commentsLines e.comments).append (linesYield_mappingText (h e he))

theorem linesYield_layerLines {l : LayerBlock} (h : ∀ e ∈ l.entries, e.mapping.InRange) :
    LinesYield (layerLines l) (layerLexemes l) := by
  have hbody := (linesYield_entryLines h).append (linesYield_commentsLines l.trailing)
  have hhead := linesYield_headerLine spelled_name_layer l.name
  exact (((linesYield_commentsLines l.comments).append hhead).append (hbody.indent 4)).append
    linesYield_brace

/-- Blocks of lines with blank lines between them. -/
theorem linesYield_appendBlocks {α : Type} {f : α → List (List Char)} {g : α → List Lexeme}
    {above : List (List Char)} {ls : List Lexeme} (ha : LinesYield above ls) {as : List α}
    (h : ∀ a ∈ as, LinesYield (f a) (g a)) :
    LinesYield (appendBlocks above (as.map f)) (ls ++ as.flatMap g) := by
  induction as generalizing above ls with
  | nil => simpa [appendBlocks] using ha
  | cons a as ih =>
    have hb : LinesYield (if above.isEmpty then above else above ++ [[]]) ls := by
      split
      · exact ha
      · have := ha.append .blank
        rwa [List.append_nil] at this
    have := ih (hb.append (h a List.mem_cons_self)) fun b hb => h b (List.mem_cons_of_mem a hb)
    simpa [appendBlocks] using this

theorem appendBlocks_append (above : List (List Char)) (bs cs : List (List (List Char))) :
    appendBlocks above (bs ++ cs) = appendBlocks (appendBlocks above bs) cs :=
  List.foldl_append

theorem linesYield_deviceLines {d : DeviceBlock} (he : ∀ e ∈ d.entries, e.mapping.InRange)
    (hl : ∀ l ∈ d.layers, ∀ e ∈ l.entries, e.mapping.InRange) :
    LinesYield (deviceLines d) (deviceLexemes d) := by
  have hblocks := linesYield_appendBlocks (linesYield_entryLines he)
    fun l h => linesYield_layerLines (hl l h)
  have hbody := hblocks.append (linesYield_commentsLines d.trailing)
  have hhead := linesYield_headerLine spelled_name_device d.pattern
  exact (((linesYield_commentsLines d.comments).append hhead).append (hbody.indent 4)).append
    linesYield_brace

/-- The text of a document consists of the lexemes of the document. -/
theorem linesYield_documentLines {d : Document} (h : d.InRange) :
    LinesYield (documentLines d) (documentLexemes d) := by
  obtain ⟨he, hl, hd⟩ := Document.forall_mem_allEntries.1 h
  have hblocks := linesYield_appendBlocks (linesYield_appendBlocks (linesYield_entryLines he)
    fun l h => linesYield_layerLines (hl l h))
    fun b h => linesYield_deviceLines (hd b h).1 (hd b h).2
  unfold documentLines documentLexemes
  simp only [appendBlocks_append]
  split
  · rename_i ht
    simpa [List.isEmpty_iff.1 ht, appendBlocks, commentsLexemes] using hblocks
  · have := linesYield_appendBlocks hblocks
      fun cs (_ : cs ∈ [d.trailing]) => linesYield_commentsLines cs
    simpa using this

theorem keys_keyLexemes {keys : List String} (h : keys ≠ []) :
    Grammar.Keys (keyLexemes keys) keys := by
  induction keys with
  | nil => exact absurd rfl h
  | cons k ks ih =>
    cases ks with
    | nil => exact .one k _
    | cons k' ks => exact .more k _ (ih (by simp))

/-- The lexemes of a statement declare the mapping. -/
theorem statement_mappingLexemes {m : Mapping} (h : m.Sayable) :
    Grammar.Statement (mappingLexemes m) m := by
  have hcall : Grammar.Call
      ([.name m.form.name, .mark .openParen] ++ argumentLexemes m ++ [.mark .closeParen]) m := by
    cases m with
    | simple source target => exact .map source target _ _
    | tapHold source tap hold timeout => exact .tapHold source tap hold timeout _ _ _ _
    | layerSwitch source layer => exact .layerSwitch source layer _ _
    | sequence source keys =>
      have := Grammar.Call.sequence source (String.ofList (quote source)) (keys_keyLexemes h)
        (.inl rfl)
      simpa [argumentLexemes, Mapping.form, Form.name, quoted] using this
  have := Grammar.Statement.mk hcall
  simpa [mappingLexemes] using this

theorem header_headerLexemes (word name : String) :
    Grammar.Header word (headerLexemes word name) name := .mk name _

theorem isComment_of_mem_commentLexemes {comment : String} {l : Lexeme}
    (h : l ∈ commentLexemes comment) : l.isComment = true := by
  unfold commentLexemes at h
  simp only at h
  split at h
  · rw [List.mem_singleton.1 h]
    rfl
  · split at h
    · rw [List.mem_singleton.1 h]
      rfl
    · obtain ⟨l', -, rfl⟩ := List.mem_map.1 h
      rfl

/-- The comments in the form in which they are written. -/
def writtenComments (comments : List String) : List String :=
  (commentsLexemes comments).map (·.text)

end Script

open Script

/-- The entry as it is written, nowhere. -/
def Entry.written (e : Entry) : Entry where
  mapping := e.mapping
  comments := writtenComments e.comments

/-- The layer as it is written, nowhere. -/
def LayerBlock.written (l : LayerBlock) : LayerBlock where
  name := l.name
  comments := writtenComments l.comments
  entries := l.entries.map Entry.written
  trailing := writtenComments l.trailing

/-- The device block as it is written, nowhere. -/
def DeviceBlock.written (d : DeviceBlock) : DeviceBlock where
  pattern := d.pattern
  comments := writtenComments d.comments
  entries := d.entries.map Entry.written
  layers := d.layers.map LayerBlock.written
  trailing := writtenComments d.trailing

/-- The document as it is written, nowhere. -/
def Document.written (d : Document) : Document where
  entries := d.entries.map Entry.written
  layers := d.layers.map LayerBlock.written
  devices := d.devices.map DeviceBlock.written
  trailing := writtenComments d.trailing

namespace Script

variable {place : Place} {us : List Token} {d : Document}

theorem says_commentsLexemes (pending comments : List String)
    (h : Says place (pending ++ writtenComments comments) us d) :
    Says place pending (loose (commentsLexemes comments) ++ us) d := by
  have hc : ∀ l ∈ commentsLexemes comments, l.isComment = true := by
    intro l hl
    obtain ⟨c, -, hc⟩ := List.mem_flatMap.1 hl
    exact isComment_of_mem_commentLexemes hc
  refine .comments (by simpa [loose, Token.isComment] using hc) ?_
  rwa [remarksOf_eq_filter, lexeme_loose, List.filter_eq_self.2 hc]

/-- Comments at the end of a place. -/
theorem says_trailing (place : Place) (comments : List String) :
    Says place [] (loose (commentsLexemes comments)) { trailing := writtenComments comments } := by
  have := says_commentsLexemes [] comments (.done place ([] ++ writtenComments comments))
  rwa [List.append_nil] at this

theorem says_entryLexemes {es : List Entry} (h : ∀ e ∈ es, e.mapping.Sayable)
    (hs : Says place [] us d) : Says place [] (loose (es.flatMap entryLexemes) ++ us)
      { d with entries := es.map Entry.written ++ d.entries } := by
  induction es with
  | nil => exact hs
  | cons e es ih =>
    obtain ⟨he, hes⟩ := List.forall_mem_cons.1 h
    have hm := says_statement (statement_mappingLexemes he) (ih hes) (writtenComments e.comments)
    simpa [entryLexemes, Entry.written] using says_commentsLexemes [] e.comments hm

theorem says_layerLexemes {ls : List LayerBlock}
    (h : ∀ l ∈ ls, ∀ e ∈ l.entries, e.mapping.Sayable) (hn : place ≠ .layer)
    (hs : Says place [] us d) : Says place [] (loose (ls.flatMap layerLexemes) ++ us)
      { d with layers := ls.map LayerBlock.written ++ d.layers } := by
  induction ls with
  | nil => exact hs
  | cons l ls ih =>
    obtain ⟨hl, hls⟩ := List.forall_mem_cons.1 h
    have hbody := says_entryLexemes hl (says_trailing .layer l.trailing)
    have hlayer := says_layer hn (header_headerLexemes "layer" l.name) hbody (ih hls)
      (writtenComments l.comments)
    simpa [layerLexemes, LayerBlock.written] using says_commentsLexemes [] l.comments hlayer

theorem says_deviceLexemes {bs : List DeviceBlock}
    (h : ∀ b ∈ bs, (∀ e ∈ b.entries, e.mapping.Sayable) ∧
      ∀ l ∈ b.layers, ∀ e ∈ l.entries, e.mapping.Sayable)
    (hs : Says .topLevel [] us d) : Says .topLevel [] (loose (bs.flatMap deviceLexemes) ++ us)
      { d with devices := bs.map DeviceBlock.written ++ d.devices } := by
  induction bs with
  | nil => exact hs
  | cons b bs ih =>
    obtain ⟨⟨hb, hl⟩, hbs⟩ := List.forall_mem_cons.1 h
    have hbody := says_entryLexemes hb
      (says_layerLexemes hl (by simp) (says_trailing .device b.trailing))
    have hdevice := says_device (header_headerLexemes "device" b.pattern) hbody (ih hbs)
      (writtenComments b.comments)
    simpa [deviceLexemes, DeviceBlock.written] using says_commentsLexemes [] b.comments hdevice

/-- The lexemes of a document say it as it is written. -/
theorem says_documentLexemes (h : d.Sayable) :
    Says .topLevel [] (loose (documentLexemes d)) d.written := by
  obtain ⟨he, hl, hd⟩ := Document.sayable_iff.1 h
  have := says_entryLexemes he (says_layerLexemes hl (by simp)
    (says_deviceLexemes hd (says_trailing .topLevel d.trailing)))
  simpa [documentLexemes, Document.written] using this

end Script

end KeyRemap
