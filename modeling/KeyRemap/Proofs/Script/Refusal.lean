import KeyRemap.Proofs.Script.RoundTrip

/-!
# Documents that no script can hold

A macro without keys is written as a list without members. The grammar has none: a string follows
each opening bracket (`FilledLists`). A layout does not mend that, since it parts a text at the ends
of its clauses and leaves such a statement as it is. So the text of a document whose timeouts are in
the range of numbers is read just when each macro has keys (`exists_parse_write_iff`).
-/
namespace KeyRemap

open Layout

/-- A string follows each opening bracket. -/
def FilledLists : List Lexeme → Prop
  | [] => True
  | l :: ls =>
    (l = .mark .openBracket → ∃ key raw, ls.head? = some (.quoted key raw)) ∧ FilledLists ls

namespace FilledLists

variable {ls ms : List Lexeme}

theorem append (hl : FilledLists ls) (hm : FilledLists ms) : FilledLists (ls ++ ms) := by
  induction ls with
  | nil => exact hm
  | cons l ls ih =>
    obtain ⟨hb, hls⟩ := hl
    refine ⟨fun h => ?_, ih hls⟩
    obtain ⟨key, raw, hk⟩ := hb h
    have : (ls ++ ms).head? = some (.quoted key raw) := by rw [List.head?_append, hk]; rfl
    exact ⟨key, raw, this⟩

theorem of_append (h : FilledLists (ls ++ ms)) : FilledLists ms := by
  induction ls with
  | nil => exact h
  | cons l ls ih => exact ih h.2

end FilledLists

/-- The lexemes hold a list without members. -/
def HasEmptyList (ls : List Lexeme) : Prop :=
  [.mark .openBracket, .mark .closeBracket] <:+: ls

theorem FilledLists.not_hasEmptyList {ls : List Lexeme} (h : FilledLists ls) :
    ¬ HasEmptyList ls := by
  rintro ⟨as, bs, rfl⟩
  rw [List.append_assoc] at h
  obtain ⟨key, raw, hk⟩ := h.of_append.1 rfl
  cases hk

namespace Grammar

theorem Keys.filledLists {ls : List Lexeme} {keys : List String} (h : Keys ls keys) :
    FilledLists ls := by
  induction h with
  | one key raw => simp [FilledLists]
  | more key raw _ ih => simpa [FilledLists] using ih

theorem Statement.filledLists {ls : List Lexeme} {m : Mapping} (h : Statement ls m) :
    FilledLists ls := by
  obtain ⟨h⟩ := h
  cases h with
  | sequence source a hk hc =>
    obtain ⟨key, raw, ms, -, rfl, -⟩ := hk.exists_cons
    have hkeys := hk.filledLists
    have hend : FilledLists [.mark .closeBracket, .mark .closeParen, .mark .semicolon] := by
      simp [FilledLists]
    rcases hc with rfl | rfl
    · simpa [FilledLists] using hkeys.append hend
    · have hcomma : FilledLists [.mark .comma] := by simp [FilledLists]
      simpa [FilledLists] using (hkeys.append hcomma).append hend
  | _ => simp [FilledLists]

theorem Header.filledLists {word name : String} {ls : List Lexeme} (h : Header word ls name) :
    FilledLists ls := by
  cases h
  simp [FilledLists]

end Grammar

/-- What a script says has members in all its lists. -/
theorem Script.Says.filledLists {place : Place} {pending : List String} {ts : List Token}
    {d : Document} (h : Says place pending ts d) : FilledLists (wordsOf ts) := by
  have hbrace {brace : Token} (hb : brace.lexeme = .mark .closeBrace) {vs : List Token}
      (hv : FilledLists (wordsOf vs)) : FilledLists (wordsOf (brace :: vs)) := by
    rw [wordsOf_word (isComment_of_lexeme hb), hb]
    exact ⟨by simp, hv⟩
  induction h with
  | done => trivial
  | comment ht _ ih => rwa [wordsOf_comment ht]
  | statement hf he hm _ ih =>
    rw [wordsOf_append]
    exact hm.filledLists.append ih
  | layer hp hf he hh _ hc _ ihb ih | device hf he hh _ hc _ ihb ih =>
    rw [wordsOf_append, wordsOf_append]
    exact (hh.filledLists.append ihb).append (hbrace hc ih)

/-- Comments, clauses up to their ends, and closing braces. -/
inductive Clauses : List Lexeme → Prop
  | nil : Clauses []
  | comment {l : Lexeme} {ls : List Lexeme} (hl : l.isComment = true) (h : Clauses ls) :
    Clauses (l :: ls)
  | clause {l : Lexeme} {ls ms : List Lexeme} {e : Ending} (hw : AllWords (l :: ls))
    (hl : ending? 0 l = none) (he : endsAt (nesting 0 l) ls = some e) (hc : e ≠ .closes)
    (h : Clauses ms) : Clauses (l :: ls ++ ms)
  | brace {ls : List Lexeme} (h : Clauses ls) : Clauses (.mark .closeBrace :: ls)

namespace Clauses

variable {ls ms : List Lexeme}

theorem append (hl : Clauses ls) (hm : Clauses ms) : Clauses (ls ++ ms) := by
  induction hl with
  | nil => exact hm
  | comment hl _ ih => exact .comment hl ih
  | clause hw hl he hc _ ih =>
    rw [List.append_assoc]
    exact .clause hw hl he hc ih
  | brace _ ih => exact .brace ih

theorem flatMap {α : Type} {f : α → List Lexeme} {as : List α} (h : ∀ a ∈ as, Clauses (f a)) :
    Clauses (as.flatMap f) := by
  induction as with
  | nil => exact nil
  | cons a as ih =>
    exact (h a List.mem_cons_self).append (ih fun b hb => h b (List.mem_cons_of_mem a hb))

theorem comments (h : ∀ l ∈ ls, l.isComment = true) : Clauses ls := by
  induction ls with
  | nil => exact nil
  | cons l ls ih =>
    obtain ⟨hl, hls⟩ := List.forall_mem_cons.1 h
    exact comment hl (ih hls)

theorem single {l : Lexeme} {e : Ending} (hw : AllWords (l :: ls)) (hl : ending? 0 l = none)
    (he : endsAt (nesting 0 l) ls = some e) (hc : e ≠ .closes) : Clauses (l :: ls) := by
  have := clause hw hl he hc nil
  rwa [List.append_nil] at this

end Clauses

/-- The words of a clause with no comments among them, as they are laid out. -/
theorem Layout.lexemesAt_words (layout : Layout) {first : Token} {ts : List Token} {e : Ending}
    (hw : AllWords ((first :: ts).map (·.lexeme))) (hn : ending? 0 first.lexeme = none)
    (he : endsAt (nesting 0 first.lexeme) (ts.map (·.lexeme)) = some e) (hc : e ≠ .closes)
    (level : Nat) (rest : List Token) :
    layout.lexemesAt level (first :: ts ++ rest) =
      layout.groupLexemes level ((first :: ts).map (·.lexeme)) ++
        layout.lexemesAt (if e = .opens then level + 1 else level) rest := by
  obtain ⟨hf, hts⟩ := List.forall_mem_cons.1 hw
  have hwords : wordsOf ts = ts.map (·.lexeme) := by
    rw [wordsOf_eq_filter, List.filter_eq_self]
    simpa using hts
  have hcomments : commentTokens ts = [] := by
    simpa [commentTokens, Token.isComment] using hts
  have hend : EndsInWord ts := by
    rw [endsInWord_iff]
    exact fun l hl => hts l (List.mem_of_getLast? hl)
  rw [← hwords] at he
  rw [lexemesAt_clause layout hf hn he hend hc, wordsOf_word hf, hwords, hcomments]
  simp

/-- Behind whole clauses a layout begins anew. -/
theorem Layout.exists_lexemesAt_append (layout : Layout) {ts : List Token}
    (h : Clauses (ts.map (·.lexeme))) (level : Nat) (rest : List Token) :
    ∃ ms level', layout.lexemesAt level (ts ++ rest) = ms ++ layout.lexemesAt level' rest := by
  generalize hl : ts.map (·.lexeme) = ls at h
  induction h generalizing ts level with
  | nil =>
    obtain rfl := List.map_eq_nil_iff.1 hl
    exact ⟨[], level, rfl⟩
  | comment hc _ ih =>
    obtain ⟨t, ts, rfl, rfl, hts⟩ := List.map_eq_cons_iff.1 hl
    obtain ⟨ms, level', hm⟩ := ih level hts
    exact ⟨_, level', by rw [List.cons_append, lexemesAt_comment layout hc, hm, List.cons_append]⟩
  | clause hw hn he hc _ ih =>
    obtain ⟨us, vs, rfl, hus, hvs⟩ := List.map_eq_append_iff.1 hl
    obtain ⟨first, us, rfl, rfl, rfl⟩ := List.map_eq_cons_iff.1 hus
    rw [List.append_assoc, lexemesAt_words layout hw hn he hc]
    obtain ⟨ms, level', hm⟩ := ih _ hvs
    exact ⟨_, level', by rw [hm, List.append_assoc]⟩
  | brace _ ih =>
    obtain ⟨brace, ts, rfl, hb, hts⟩ := List.map_eq_cons_iff.1 hl
    obtain ⟨ms, level', hm⟩ := ih (level - 1) hts
    exact ⟨_, level', by rw [List.cons_append, lexemesAt_brace layout hb, hm, List.cons_append]⟩

namespace Script

theorem endsAt_keyLexemes (keys : List String) (depth : Nat) (ms : List Lexeme) :
    endsAt depth (keyLexemes keys ++ ms) = endsAt depth ms := by
  induction keys with
  | nil => rfl
  | cons k ks ih =>
    cases ks with
    | nil => simp [keyLexemes, quoted, endsAt, ending?, nesting]
    | cons k' ks => simpa [keyLexemes, quoted, endsAt, ending?, nesting] using ih

theorem allWords_keyLexemes (keys : List String) : AllWords (keyLexemes keys) := by
  induction keys with
  | nil => simp [AllWords, keyLexemes]
  | cons k ks ih =>
    cases ks with
    | nil => simp [AllWords, keyLexemes, quoted, Lexeme.isComment]
    | cons k' ks => simpa [AllWords, keyLexemes, quoted, Lexeme.isComment] using ih

theorem allWords_mappingLexemes (m : Mapping) : AllWords (mappingLexemes m) := by
  cases m with
  | sequence source keys =>
    have := allWords_keyLexemes keys
    simpa [AllWords, mappingLexemes, argumentLexemes, quoted, Lexeme.isComment, or_imp,
      forall_and] using this
  | _ => simp [AllWords, mappingLexemes, argumentLexemes, quoted, number, Lexeme.isComment]

/-- A statement ends with its semicolon, whether its macro has keys or not. -/
theorem endsAt_mappingLexemes (m : Mapping) :
    endsAt 0 (.mark .openParen :: argumentLexemes m ++ [.mark .closeParen, .mark .semicolon]) =
      some .statement := by
  cases m with
  | sequence source keys =>
    simp [argumentLexemes, quoted, endsAt, ending?, nesting, endsAt_keyLexemes]
  | _ => simp [argumentLexemes, quoted, number, endsAt, ending?, nesting]

theorem clauses_mappingLexemes (m : Mapping) : Clauses (mappingLexemes m) :=
  .single (allWords_mappingLexemes m) rfl (endsAt_mappingLexemes m) (by simp)

theorem clauses_headerLexemes (word name : String) : Clauses (headerLexemes word name) :=
  .single (by simp [AllWords, quoted, Lexeme.isComment]) rfl rfl (by simp)

theorem clauses_commentsLexemes (comments : List String) : Clauses (commentsLexemes comments) := by
  refine .flatMap fun c _ => .comments fun l hl => ?_
  exact isComment_of_mem_commentLexemes hl

theorem clauses_entryLexemes (e : Entry) : Clauses (entryLexemes e) :=
  (clauses_commentsLexemes e.comments).append (clauses_mappingLexemes e.mapping)

/-- The comments and the header of a block. -/
theorem clauses_head (comments : List String) (word name : String) :
    Clauses (commentsLexemes comments ++ headerLexemes word name) :=
  (clauses_commentsLexemes comments).append (clauses_headerLexemes word name)

theorem clauses_layerLexemes (l : LayerBlock) : Clauses (layerLexemes l) := by
  have hbody : Clauses (l.entries.flatMap entryLexemes ++ commentsLexemes l.trailing) :=
    (Clauses.flatMap fun e _ => clauses_entryLexemes e).append (clauses_commentsLexemes _)
  exact ((clauses_head _ _ _).append hbody).append (.brace .nil)

theorem clauses_deviceLexemes (b : DeviceBlock) : Clauses (deviceLexemes b) := by
  have hbody : Clauses (b.entries.flatMap entryLexemes ++ b.layers.flatMap layerLexemes ++
      commentsLexemes b.trailing) :=
    ((Clauses.flatMap fun e _ => clauses_entryLexemes e).append
      (.flatMap fun l _ => clauses_layerLexemes l)).append (clauses_commentsLexemes _)
  exact ((clauses_head _ _ _).append hbody).append (.brace .nil)

/-- The lexemes `ms` stand behind whole clauses. -/
def Stands (ms ls : List Lexeme) : Prop := ∃ as bs, ls = as ++ (ms ++ bs) ∧ Clauses as

namespace Stands

variable {ls ms : List Lexeme}

theorem behind (h : Stands ms ls) {as : List Lexeme} (ha : Clauses as) : Stands ms (as ++ ls) := by
  obtain ⟨cs, bs, rfl, hc⟩ := h
  exact ⟨as ++ cs, bs, by simp, ha.append hc⟩

theorem before (h : Stands ms ls) (bs : List Lexeme) : Stands ms (ls ++ bs) := by
  obtain ⟨as, cs, rfl, ha⟩ := h
  exact ⟨as, cs ++ bs, by simp, ha⟩

theorem flatMap {α : Type} {f : α → List Lexeme} {as : List α} {a : α} (ha : a ∈ as)
    (h : Stands ms (f a)) (hf : ∀ a, Clauses (f a)) : Stands ms (as.flatMap f) := by
  obtain ⟨xs, ys, rfl⟩ := List.append_of_mem ha
  rw [List.flatMap_append, List.flatMap_cons]
  exact (h.before _).behind (.flatMap fun b _ => hf b)

end Stands

theorem stands_entries {es : List Entry} {e : Entry} (he : e ∈ es) :
    Stands (mappingLexemes e.mapping) (es.flatMap entryLexemes) :=
  .flatMap he ⟨_, [], by rw [List.append_nil]; rfl, clauses_commentsLexemes e.comments⟩
    clauses_entryLexemes

theorem stands_layers {ls : List LayerBlock} {l : LayerBlock} (hl : l ∈ ls) {e : Entry}
    (he : e ∈ l.entries) : Stands (mappingLexemes e.mapping) (ls.flatMap layerLexemes) :=
  .flatMap hl ((((stands_entries he).before _).behind (clauses_head _ _ _)).before _)
    clauses_layerLexemes

theorem stands_devices {bs : List DeviceBlock} {b : DeviceBlock} (hb : b ∈ bs) {e : Entry}
    (he : e ∈ b.entries ∨ ∃ l ∈ b.layers, e ∈ l.entries) :
    Stands (mappingLexemes e.mapping) (bs.flatMap deviceLexemes) := by
  have hbody : Stands (mappingLexemes e.mapping)
      (b.entries.flatMap entryLexemes ++ b.layers.flatMap layerLexemes) := by
    rcases he with he | ⟨l, hl, he⟩
    · exact (stands_entries he).before _
    · exact (stands_layers hl he).behind (.flatMap fun e _ => clauses_entryLexemes e)
  exact .flatMap hb (((hbody.before _).behind (clauses_head _ _ _)).before _) clauses_deviceLexemes

/-- The statement of every entry stands behind whole clauses. -/
theorem stands_documentLexemes {d : Document} {e : Entry} (he : e ∈ d.allEntries) :
    Stands (mappingLexemes e.mapping) (documentLexemes d) := by
  have hentries : Clauses (d.entries.flatMap entryLexemes) :=
    .flatMap fun e _ => clauses_entryLexemes e
  have hlayers : Clauses (d.layers.flatMap layerLexemes) :=
    .flatMap fun l _ => clauses_layerLexemes l
  simp only [Document.allEntries, List.mem_append, List.mem_flatMap] at he
  rcases he with (he | ⟨l, hl, he⟩) | ⟨b, hb, he⟩
  · exact (((stands_entries he).before _).before _).before _
  · exact (((stands_layers hl he).behind hentries).before _).before _
  · exact ((stands_devices hb he).behind (hentries.append hlayers)).before _

/-- No layout fills the list of a macro without keys. -/
theorem groupLexemes_emptySequence (layout : Layout) (level : Nat) (source : String) :
    layout.groupLexemes level (mappingLexemes (.sequence source [])) =
      mappingLexemes (.sequence source []) := by
  simp [groupLexemes, mappingLexemes, argumentLexemes, keyLexemes, quoted, splitList?, trimCommas]

/-- A document with a macro without keys is laid out with a list without members. -/
theorem hasEmptyList_lexemes (layout : Layout) {d : Document} {e : Entry} (he : e ∈ d.allEntries)
    (hs : e.mapping.isEmptySequence = true) {ts : List Token}
    (ht : ts.map (·.lexeme) = documentLexemes d) : HasEmptyList (layout.lexemes ts) := by
  obtain ⟨source, hm⟩ : ∃ source, e.mapping = .sequence source [] := by
    cases hm : e.mapping <;> simp_all [Mapping.isEmptySequence]
  obtain ⟨as, bs, hd, ha⟩ := stands_documentLexemes he
  rw [← ht] at hd
  obtain ⟨us, vs, rfl, rfl, hvs⟩ := List.map_eq_append_iff.1 hd
  obtain ⟨ws, xs, rfl, hws, -⟩ := List.map_eq_append_iff.1 hvs
  obtain ⟨ls, level, hl⟩ := layout.exists_lexemesAt_append ha 0 (ws ++ xs)
  obtain ⟨first, ws, rfl, hf, hws'⟩ := List.map_eq_cons_iff.1 hws
  have hgroup := layout.lexemesAt_words (hws ▸ allWords_mappingLexemes e.mapping)
    (by rw [hf]; rfl) (by rw [hf, hws']; exact endsAt_mappingLexemes e.mapping) (by simp) level xs
  rw [hws, hm, groupLexemes_emptySequence] at hgroup
  have hlist : HasEmptyList (mappingLexemes (.sequence source [])) :=
    ⟨[.name "macro", .mark .openParen, quoted source, .mark .comma],
      [.mark .closeParen, .mark .semicolon], rfl⟩
  have : layout.lexemes (us ++ (first :: ws ++ xs)) = _ := hl.trans (congrArg (ls ++ ·) hgroup)
  rw [this]
  exact (hlist.trans (List.prefix_append _ _).isInfix).trans (List.suffix_append _ _).isInfix

/-- What is written of a document whose timeouts are in the range of numbers is read just when each
macro has keys. -/
theorem exists_parse_write_iff (layout : Layout) {d : Document} (h : d.InRange) :
    (∃ d', parse (write layout d) = .ok d') ↔
      ∀ e ∈ d.allEntries, e.mapping.isEmptySequence = false := by
  constructor
  · rintro ⟨d', hp⟩ e he
    rw [← Bool.not_eq_true]
    intro hs
    obtain ⟨ts, ht, hl⟩ := (linesYield_documentLines h).tokenize_eq
    obtain ⟨us, hu, hul⟩ := layout.tokenize_format ht
    obtain ⟨us', hu', hsays⟩ := parse_eq_ok_iff.1 hp
    obtain rfl := Except.ok.inj (hu.symm.trans hu')
    refine hsays.filledLists.not_hasEmptyList ?_
    rw [wordsOf_eq_filter, hul]
    exact (hasEmptyList_lexemes layout he hs hl).filter (!·.isComment)
  · intro hs
    obtain ⟨d', hd, -⟩ := exists_parse_write layout (d := d) fun e he =>
      Mapping.sayable_iff.2 ⟨h e he, hs e he⟩
    exact ⟨d', hd⟩

end Script

end KeyRemap
