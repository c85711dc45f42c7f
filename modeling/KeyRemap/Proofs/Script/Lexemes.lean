import KeyRemap.Proofs.Script.Content

/-!
# What lexemes say

What tokens say depends on their lexemes alone, but for positions (`Says.congr`). So a text is
described by its lexemes, each standing nowhere: a statement, a layer or a device block is said by
the lexemes that the grammar has for it (`says_statement`, `says_layer`, `says_device`).
-/
namespace KeyRemap

/-- The lexemes as tokens that stand nowhere. -/
def loose (ls : List Lexeme) : List Token := ls.map fun l => ⟨l, {}, 0⟩

@[simp] theorem loose_nil : loose [] = [] := rfl

@[simp] theorem loose_cons (l : Lexeme) (ls : List Lexeme) :
    loose (l :: ls) = ⟨l, {}, 0⟩ :: loose ls := rfl

@[simp] theorem loose_append (ls ms : List Lexeme) : loose (ls ++ ms) = loose ls ++ loose ms := by
  simp [loose]

@[simp] theorem lexeme_loose (ls : List Lexeme) : (loose ls).map (·.lexeme) = ls := by
  simp [loose, Function.comp_def]

theorem wordsOf_eq_filter (ts : List Token) :
    wordsOf ts = (ts.map (·.lexeme)).filter (!·.isComment) := by
  simp [wordsOf, wordTokens, List.filter_map, Function.comp_def, Token.isComment]

theorem remarksOf_eq_filter (ts : List Token) :
    remarksOf ts = ((ts.map (·.lexeme)).filter (·.isComment)).map (·.text) := by
  simp [remarksOf, commentTokens, List.filter_map, Function.comp_def, Token.isComment]

theorem endsInWord_iff (ts : List Token) :
    EndsInWord ts ↔ ∀ l ∈ (ts.map (·.lexeme)).getLast?, l.isComment = false := by
  simp [EndsInWord, List.getLast?_map, Token.isComment]

/-- Lexemes that are no comments. -/
def AllWords (ls : List Lexeme) : Prop := ∀ l ∈ ls, l.isComment = false

/-- Words make up a clause. -/
theorem AllWords.exists_clause {ls : List Lexeme} (h : AllWords ls) (hn : ls ≠ []) :
    ∃ first ts, loose ls = first :: ts ∧ first.isComment = false ∧ first.position = {} ∧
      EndsInWord ts ∧ remarksOf ts = [] ∧ wordsOf (first :: ts) = ls := by
  obtain ⟨l, ms, rfl⟩ := List.exists_cons_of_ne_nil hn
  obtain ⟨hl, hms⟩ := List.forall_mem_cons.1 h
  refine ⟨_, loose ms, rfl, hl, rfl, ?_, ?_, ?_⟩
  · rw [endsInWord_iff, lexeme_loose]
    exact fun m hm => hms m (List.mem_of_getLast? hm)
  · rw [remarksOf_eq_filter, lexeme_loose, List.map_eq_nil_iff, List.filter_eq_nil_iff]
    simpa using hms
  · rw [← loose_cons, wordsOf_eq_filter, lexeme_loose, List.filter_eq_self]
    simpa [AllWords] using h

@[simp] theorem Entry.unplaced_unplaced (e : Entry) : e.unplaced.unplaced = e.unplaced := rfl

@[simp] theorem LayerBlock.unplaced_unplaced (l : LayerBlock) :
    l.unplaced.unplaced = l.unplaced := by
  simp [unplaced]

@[simp] theorem DeviceBlock.unplaced_unplaced (d : DeviceBlock) :
    d.unplaced.unplaced = d.unplaced := by
  simp [unplaced]

theorem Document.agrees_unplaced (d : Document) : d.unplaced.Agrees d := by
  simp [Agrees, unplaced]

namespace Document.Agrees

variable {a b : Document}

theorem entries_eq (h : a.Agrees b) :
    a.entries.map Entry.unplaced = b.entries.map Entry.unplaced :=
  congrArg Document.entries h

theorem layers_eq (h : a.Agrees b) :
    a.layers.map LayerBlock.unplaced = b.layers.map LayerBlock.unplaced :=
  congrArg Document.layers h

theorem devices_eq (h : a.Agrees b) :
    a.devices.map DeviceBlock.unplaced = b.devices.map DeviceBlock.unplaced :=
  congrArg Document.devices h

theorem trailing_eq (h : a.Agrees b) : a.trailing = b.trailing :=
  (congrArg Document.trailing h : a.unplaced.trailing = b.unplaced.trailing)

theorem entry (h : a.Agrees b) {e f : Entry} (he : e.unplaced = f.unplaced) :
    Document.Agrees { a with entries := e :: a.entries } { b with entries := f :: b.entries } := by
  simp [Document.Agrees, Document.unplaced, he, h.entries_eq, h.layers_eq, h.devices_eq,
    h.trailing_eq]

theorem layer (h : a.Agrees b) {l m : LayerBlock} (hl : l.unplaced = m.unplaced) :
    Document.Agrees { a with layers := l :: a.layers } { b with layers := m :: b.layers } := by
  simp [Document.Agrees, Document.unplaced, hl, h.entries_eq, h.layers_eq, h.devices_eq,
    h.trailing_eq]

theorem device (h : a.Agrees b) {x y : DeviceBlock} (hx : x.unplaced = y.unplaced) :
    Document.Agrees { a with devices := x :: a.devices } { b with devices := y :: b.devices } := by
  simp [Document.Agrees, Document.unplaced, hx, h.entries_eq, h.layers_eq, h.devices_eq,
    h.trailing_eq]

end Document.Agrees

namespace Grammar

theorem Keys.allWords {ls : List Lexeme} {keys : List String} (h : Keys ls keys) : AllWords ls := by
  induction h with
  | one key raw => simp [AllWords, Lexeme.isComment]
  | more key raw _ ih => simpa [AllWords, Lexeme.isComment] using ih

theorem Statement.allWords {ls : List Lexeme} {m : Mapping} (h : Statement ls m) : AllWords ls := by
  obtain ⟨h⟩ := h
  cases h with
  | sequence source a h hc =>
    have := h.allWords
    rcases hc with rfl | rfl <;> simpa [AllWords, Lexeme.isComment, or_imp, forall_and] using this
  | _ => simp [AllWords, Lexeme.isComment]

theorem Statement.ne_nil {ls : List Lexeme} {m : Mapping} (h : Statement ls m) : ls ≠ [] := by
  obtain ⟨h⟩ := h
  simp

theorem Header.allWords {word name : String} {ls : List Lexeme} (h : Header word ls name) :
    AllWords ls := by
  cases h
  simp [AllWords, Lexeme.isComment]

theorem Header.ne_nil {word name : String} {ls : List Lexeme} (h : Header word ls name) :
    ls ≠ [] := by
  cases h
  simp

end Grammar

namespace Script

variable {place : Place} {ts us vs : List Token} {b d : Document} {ls : List Lexeme}

/-- A statement is said by its lexemes. -/
theorem says_statement {m : Mapping} (h : Grammar.Statement ls m) (hs : Says place [] us d)
    (pending : List String) : Says place pending (loose ls ++ us)
      { d with entries := { mapping := m, comments := pending } :: d.entries } := by
  obtain ⟨first, ts, hl, hf, hp, he, hr, hw⟩ := h.allWords.exists_clause h.ne_nil
  rw [← hw] at h
  rw [← hr] at hs
  rw [hl, ← hp]
  exact .statement hf he h hs

/-- A layer is said by the lexemes of its header, what says its body, and a brace. -/
theorem says_layer {name : String} (hn : place ≠ .layer) (h : Grammar.Header "layer" ls name)
    (hb : Says .layer [] us b) (hs : Says place [] vs d) (pending : List String) :
    Says place pending (loose ls ++ us ++ loose [.mark .closeBrace] ++ vs)
      { d with layers := ⟨name, pending, b.entries, b.trailing, {}⟩ :: d.layers } := by
  obtain ⟨first, ts, hl, hf, hp, he, hr, hw⟩ := h.allWords.exists_clause h.ne_nil
  rw [← hw] at h
  rw [← hr] at hb
  rw [hl, ← hp, List.append_assoc]
  exact .layer hn hf he h hb rfl hs

/-- A device block is said by the lexemes of its header, what says its body, and a brace. -/
theorem says_device {pattern : String} (h : Grammar.Header "device" ls pattern)
    (hb : Says .device [] us b) (hs : Says .topLevel [] vs d) (pending : List String) :
    Says .topLevel pending (loose ls ++ us ++ loose [.mark .closeBrace] ++ vs)
      { d with
        devices := ⟨pattern, pending, b.entries, b.layers, b.trailing, {}⟩ :: d.devices } := by
  obtain ⟨first, ts, hl, hf, hp, he, hr, hw⟩ := h.allWords.exists_clause h.ne_nil
  rw [← hw] at h
  rw [← hr] at hb
  rw [hl, ← hp, List.append_assoc]
  exact .device hf he h hb rfl hs

/-- Where tokens have the lexemes of a clause and more. -/
theorem exists_clause_of_map_eq {first : Token} (hf : first.isComment = false)
    (he : EndsInWord ts) (hl : us.map (·.lexeme) = (first :: ts ++ vs).map (·.lexeme)) :
    ∃ u xs ys, us = u :: xs ++ ys ∧ u.isComment = false ∧ EndsInWord xs ∧
      wordsOf (u :: xs) = wordsOf (first :: ts) ∧ remarksOf xs = remarksOf ts ∧
      ys.map (·.lexeme) = vs.map (·.lexeme) := by
  rw [List.map_append] at hl
  obtain ⟨xs, ys, rfl, hx, hy⟩ := List.map_eq_append_iff.1 hl
  obtain ⟨u, xs, rfl, hu, hxs⟩ := List.map_eq_cons_iff.1 hx
  refine ⟨u, xs, ys, rfl, ?_, ?_, ?_, ?_, hy⟩
  · exact (congrArg Lexeme.isComment hu).trans hf
  · rwa [endsInWord_iff, hxs, ← endsInWord_iff]
  · rw [wordsOf_eq_filter, wordsOf_eq_filter, hx]
  · rw [remarksOf_eq_filter, remarksOf_eq_filter, hxs]

/-- Where tokens have the lexemes of a block and more. -/
theorem exists_block_of_map_eq {first brace : Token} {bs : List Token}
    (hf : first.isComment = false) (he : EndsInWord ts)
    (hl : us.map (·.lexeme) = (first :: ts ++ bs ++ brace :: vs).map (·.lexeme)) :
    ∃ u xs ys b zs, us = u :: xs ++ ys ++ b :: zs ∧ u.isComment = false ∧ EndsInWord xs ∧
      wordsOf (u :: xs) = wordsOf (first :: ts) ∧ remarksOf xs = remarksOf ts ∧
      ys.map (·.lexeme) = bs.map (·.lexeme) ∧ b.lexeme = brace.lexeme ∧
      zs.map (·.lexeme) = vs.map (·.lexeme) := by
  rw [List.append_assoc] at hl
  obtain ⟨u, xs, ws, rfl, hf', he', hw, hr, hws⟩ := exists_clause_of_map_eq hf he hl
  rw [List.map_append] at hws
  obtain ⟨ys, zs, rfl, hys, hz⟩ := List.map_eq_append_iff.1 hws
  obtain ⟨b, zs, rfl, hb, hzs⟩ := List.map_eq_cons_iff.1 hz
  exact ⟨u, xs, ys, b, zs, by simp, hf', he', hw, hr, hys, hb, hzs⟩

/-- Tokens with the same lexemes say the same, but for positions. -/
theorem Says.congr {pending : List String} (h : Says place pending ts d)
    (hl : us.map (·.lexeme) = ts.map (·.lexeme)) :
    ∃ d', Says place pending us d' ∧ d'.Agrees d := by
  induction h generalizing us with
  | done place pending =>
    obtain rfl := List.map_eq_nil_iff.1 hl
    exact ⟨_, .done place pending, .refl _⟩
  | @comment place pending t ts d ht _ ih =>
    obtain ⟨u, us, rfl, hu : u.lexeme = t.lexeme, hus⟩ := List.map_eq_cons_iff.1 hl
    obtain ⟨d', hd, ha⟩ := ih hus
    rw [← hu] at hd
    exact ⟨d', .comment ((congrArg Lexeme.isComment hu).trans ht) hd, ha⟩
  | statement hf he hm _ ih =>
    obtain ⟨u, xs, ys, rfl, hf', he', hw, hr, hy⟩ := exists_clause_of_map_eq hf he hl
    obtain ⟨d', hd, ha⟩ := ih hy
    rw [← hw] at hm
    rw [← hr] at hd
    exact ⟨_, .statement hf' he' hm hd, ha.entry rfl⟩
  | layer hn hf he hh _ hc _ ihb ih =>
    obtain ⟨u, xs, ys, brace, zs, rfl, hf', he', hw, hr, hys, hb, hzs⟩ :=
      exists_block_of_map_eq hf he hl
    obtain ⟨b', hb', hba⟩ := ihb hys
    obtain ⟨d', hd', hda⟩ := ih hzs
    rw [← hw] at hh
    rw [← hr] at hb'
    refine ⟨_, .layer hn hf' he' hh hb' (hb.trans hc) hd', hda.layer ?_⟩
    simp [LayerBlock.unplaced, hba.entries_eq, hba.trailing_eq]
  | device hf he hh _ hc _ ihb ih =>
    obtain ⟨u, xs, ys, brace, zs, rfl, hf', he', hw, hr, hys, hb, hzs⟩ :=
      exists_block_of_map_eq hf he hl
    obtain ⟨b', hb', hba⟩ := ihb hys
    obtain ⟨d', hd', hda⟩ := ih hzs
    rw [← hw] at hh
    rw [← hr] at hb'
    refine ⟨_, .device hf' he' hh hb' (hb.trans hc) hd', hda.device ?_⟩
    simp [DeviceBlock.unplaced, hba.entries_eq, hba.layers_eq, hba.trailing_eq]

end Script

end KeyRemap
