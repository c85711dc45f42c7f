import KeyRemap.Proofs.Script.Recognition

/-!
# Words and comments

The reader sees the words of a script, each with the comments above it. A list of tokens is put
together from stretches that end in a word, and its items from theirs (`Item.ofTokens_append`).
Conversely a split of the words, or of the items, is a split of the tokens
(`exists_clause_of_wordTokens`, `Item.exists_of_ofTokens_append`).
-/
namespace KeyRemap

/-- The tokens that are no comments. -/
def wordTokens (ts : List Token) : List Token := ts.filter (!·.isComment)

/-- The lexemes that are no comments. -/
def wordsOf (ts : List Token) : List Lexeme := (wordTokens ts).map (·.lexeme)

/-- The tokens that are comments. -/
def commentTokens (ts : List Token) : List Token := ts.filter (·.isComment)

/-- The texts of the comments. -/
def remarksOf (ts : List Token) : List String := (commentTokens ts).map (·.lexeme.text)

/-- The tokens do not end in a comment. -/
def EndsInWord (ts : List Token) : Prop := ∀ t ∈ ts.getLast?, t.isComment = false

section Tokens

variable {t : Token} {ts us : List Token}

@[simp] theorem wordTokens_nil : wordTokens [] = [] := rfl

@[simp] theorem wordsOf_nil : wordsOf [] = [] := rfl

@[simp] theorem remarksOf_nil : remarksOf [] = [] := rfl

@[simp] theorem wordTokens_append : wordTokens (ts ++ us) = wordTokens ts ++ wordTokens us := by
  simp [wordTokens]

@[simp] theorem wordsOf_append : wordsOf (ts ++ us) = wordsOf ts ++ wordsOf us := by
  simp [wordsOf]

@[simp] theorem remarksOf_append : remarksOf (ts ++ us) = remarksOf ts ++ remarksOf us := by
  simp [remarksOf, commentTokens]

theorem wordTokens_word (h : t.isComment = false) : wordTokens (t :: ts) = t :: wordTokens ts := by
  simp [wordTokens, h]

theorem wordsOf_word (h : t.isComment = false) : wordsOf (t :: ts) = t.lexeme :: wordsOf ts := by
  simp [wordsOf, wordTokens_word h]

theorem wordTokens_comment (h : t.isComment = true) : wordTokens (t :: ts) = wordTokens ts := by
  simp [wordTokens, h]

theorem wordsOf_comment (h : t.isComment = true) : wordsOf (t :: ts) = wordsOf ts := by
  simp [wordsOf, wordTokens_comment h]

theorem remarksOf_word (h : t.isComment = false) : remarksOf (t :: ts) = remarksOf ts := by
  simp [remarksOf, commentTokens, h]

theorem remarksOf_comment (h : t.isComment = true) :
    remarksOf (t :: ts) = t.lexeme.text :: remarksOf ts := by
  simp [remarksOf, commentTokens, h]

theorem wordTokens_eq_nil_iff : wordTokens ts = [] ↔ ∀ t ∈ ts, t.isComment = true := by
  simp [wordTokens]

theorem isComment_of_lexeme {m : Mark} (h : t.lexeme = .mark m) : t.isComment = false := by
  simp [Token.isComment, h, Lexeme.isComment]

@[simp] theorem endsInWord_nil : EndsInWord [] := by
  simp [EndsInWord]

theorem endsInWord_cons_cons {u : Token} :
    EndsInWord (t :: u :: us) ↔ EndsInWord (u :: us) := by
  simp [EndsInWord, List.getLast?_cons_cons]

theorem EndsInWord.tail (h : EndsInWord (t :: ts)) : EndsInWord ts := by
  cases ts with
  | nil => exact endsInWord_nil
  | cons u us => exact endsInWord_cons_cons.1 h

theorem EndsInWord.cons (h : EndsInWord ts) (ht : t.isComment = false) : EndsInWord (t :: ts) := by
  cases ts with
  | nil => simpa [EndsInWord] using ht
  | cons u us => exact endsInWord_cons_cons.2 h

theorem endsInWord_append (ts : List Token) (h : EndsInWord us) (hn : us ≠ []) :
    EndsInWord (ts ++ us) := by
  intro u hu
  rw [List.getLast?_append, List.getLast?_eq_some_getLast hn] at hu
  exact h u (by rw [List.getLast?_eq_some_getLast hn]; exact hu)

/-- Tokens without words end in none. -/
theorem EndsInWord.eq_nil (h : EndsInWord ts) (hw : wordsOf ts = []) : ts = [] := by
  induction ts with
  | nil => rfl
  | cons t ts ih =>
    cases ht : t.isComment with
    | false => rw [wordsOf_word ht] at hw; cases hw
    | true =>
      obtain rfl := ih h.tail (by rwa [wordsOf_comment ht] at hw)
      simp [EndsInWord, ht] at h

/-- Where a word comes from: the comments above it, and the word itself. -/
theorem exists_of_wordTokens_cons {gs : List Token} (h : wordTokens ts = t :: gs) :
    ∃ cs us, ts = cs ++ t :: us ∧ (∀ c ∈ cs, c.isComment = true) ∧ t.isComment = false ∧
      wordTokens us = gs := by
  obtain ⟨cs, us, rfl, hcs, ht, hus⟩ := List.filter_eq_cons_iff.1 h
  exact ⟨cs, us, rfl, by simpa using hcs, by simpa using ht, hus⟩

/-- Where a run of words comes from: a run of tokens up to a word. -/
theorem exists_of_wordTokens_append {gs hs : List Token} (h : wordTokens ts = gs ++ hs) :
    ∃ us vs, ts = us ++ vs ∧ EndsInWord us ∧ wordTokens us = gs ∧ wordTokens vs = hs := by
  induction gs generalizing ts with
  | nil => exact ⟨[], ts, rfl, endsInWord_nil, rfl, h⟩
  | cons g gs ih =>
    obtain ⟨cs, us, rfl, hcs, hg, hus⟩ := exists_of_wordTokens_cons h
    obtain ⟨vs, ws, rfl, he, rfl, hws⟩ := ih hus
    refine ⟨cs ++ g :: vs, ws, by simp, ?_, ?_, hws⟩
    · exact endsInWord_append cs (he.cons hg) (List.cons_ne_nil g vs)
    · rw [wordTokens_append, wordTokens_word hg, wordTokens_eq_nil_iff.2 hcs, List.nil_append]

/-- Where a clause comes from: comments, a first word, and tokens up to its last word. -/
theorem exists_clause_of_wordTokens {gs hs : List Token} (h : wordTokens ts = t :: gs ++ hs) :
    ∃ cs us vs, ts = cs ++ (t :: us ++ vs) ∧ (∀ c ∈ cs, c.isComment = true) ∧
      t.isComment = false ∧ EndsInWord us ∧ wordTokens us = gs ∧ wordTokens vs = hs := by
  obtain ⟨cs, ws, rfl, hcs, ht, hws⟩ := exists_of_wordTokens_cons h
  obtain ⟨us, vs, rfl, he, hus, hvs⟩ := exists_of_wordTokens_append hws
  exact ⟨cs, us, vs, rfl, hcs, ht, he, hus, hvs⟩

end Tokens

section Items

variable {t : Token} {ts us : List Token}

theorem Item.ofTokens_word (h : t.isComment = false) :
    Item.ofTokens (t :: ts) =
      (⟨[], t.lexeme, t.position⟩ :: (Item.ofTokens ts).1, (Item.ofTokens ts).2) := by
  simp [Item.ofTokens, h]

theorem Item.ofTokens_comment_nil (h : t.isComment = true) (hn : (Item.ofTokens ts).1 = []) :
    Item.ofTokens (t :: ts) = ([], t.lexeme.text :: (Item.ofTokens ts).2) := by
  rw [Item.ofTokens]
  simp only [h, if_true, hn]

theorem Item.ofTokens_comment_cons {i : Item} {is : List Item} (h : t.isComment = true)
    (hn : (Item.ofTokens ts).1 = i :: is) :
    Item.ofTokens (t :: ts) =
      ({ i with comments := t.lexeme.text :: i.comments } :: is, (Item.ofTokens ts).2) := by
  rw [Item.ofTokens]
  simp only [h, if_true, hn]

theorem Item.lexemesOf_ofTokens (ts : List Token) :
    Script.lexemesOf (Item.ofTokens ts).1 = wordsOf ts := by
  induction ts with
  | nil => rfl
  | cons t ts ih =>
    cases ht : t.isComment with
    | false => rw [ofTokens_word ht, wordsOf_word ht, Script.lexemesOf_cons, ih]
    | true =>
      rw [wordsOf_comment ht, ← ih]
      cases hn : (Item.ofTokens ts).1 with
      | nil => rw [ofTokens_comment_nil ht hn]
      | cons i is => rw [ofTokens_comment_cons ht hn]; rfl

theorem Item.commentsOf_ofTokens (ts : List Token) :
    Script.commentsOf (Item.ofTokens ts).1 ++ (Item.ofTokens ts).2 = remarksOf ts := by
  induction ts with
  | nil => rfl
  | cons t ts ih =>
    cases ht : t.isComment with
    | false => rw [ofTokens_word ht, remarksOf_word ht, ← ih]; rfl
    | true =>
      rw [remarksOf_comment ht, ← ih]
      cases hn : (Item.ofTokens ts).1 with
      | nil => rw [ofTokens_comment_nil ht hn]; rfl
      | cons i is => rw [ofTokens_comment_cons ht hn]; simp

/-- Tokens up to a word and the tokens behind it make up their items apart. -/
theorem Item.ofTokens_append (h : EndsInWord ts) :
    Item.ofTokens (ts ++ us) =
      ((Item.ofTokens ts).1 ++ (Item.ofTokens us).1, (Item.ofTokens us).2) := by
  induction ts with
  | nil => rfl
  | cons t ts ih =>
    have hi := ih h.tail
    cases ht : t.isComment with
    | false => rw [List.cons_append, ofTokens_word ht, ofTokens_word ht, hi]; rfl
    | true =>
      cases hn : (Item.ofTokens ts).1 with
      | nil =>
        obtain rfl := h.tail.eq_nil (by rw [← lexemesOf_ofTokens, hn]; rfl)
        simp [EndsInWord, ht] at h
      | cons i is =>
        rw [hn] at hi
        rw [List.cons_append, ofTokens_comment_cons ht (congrArg Prod.fst hi),
          ofTokens_comment_cons ht hn, hi]
        rfl

theorem Item.ofTokens_snd (h : EndsInWord ts) : (Item.ofTokens ts).2 = [] := by
  have hn : Item.ofTokens (ts ++ []) = _ := ofTokens_append h
  rw [List.append_nil] at hn
  exact congrArg Prod.snd hn

theorem Item.commentsOf_ofTokens_of_endsInWord (h : EndsInWord ts) :
    Script.commentsOf (Item.ofTokens ts).1 = remarksOf ts := by
  rw [← commentsOf_ofTokens, ofTokens_snd h, List.append_nil]

/-- The comments above a word are those of its item. -/
theorem Item.ofTokens_comments_word {cs : List Token} (hcs : ∀ c ∈ cs, c.isComment = true)
    (ht : t.isComment = false) : Item.ofTokens (cs ++ t :: ts) =
      (⟨remarksOf cs, t.lexeme, t.position⟩ :: (Item.ofTokens ts).1, (Item.ofTokens ts).2) := by
  induction cs with
  | nil => exact ofTokens_word ht
  | cons c cs ih =>
    have hi := ih fun d hd => hcs d (List.mem_cons_of_mem c hd)
    have hc := hcs c List.mem_cons_self
    rw [List.cons_append, ofTokens_comment_cons hc (congrArg Prod.fst hi), hi,
      remarksOf_comment hc]

/-- Where an item comes from: its token, with the comments above it. -/
theorem Item.exists_of_ofTokens_cons {i : Item} {is : List Item}
    (h : (Item.ofTokens ts).1 = i :: is) : ∃ cs first us, ts = cs ++ first :: us ∧
      (∀ t ∈ cs, t.isComment = true) ∧ first.isComment = false ∧
      i = ⟨remarksOf cs, first.lexeme, first.position⟩ ∧ (Item.ofTokens us).1 = is ∧
      (Item.ofTokens us).2 = (Item.ofTokens ts).2 := by
  have hw := lexemesOf_ofTokens ts
  rw [h] at hw
  obtain ⟨first, gs, hg, -, -⟩ := List.map_eq_cons_iff.1 hw.symm
  obtain ⟨cs, us, rfl, hcs, hf, -⟩ := exists_of_wordTokens_cons hg
  rw [ofTokens_comments_word hcs hf] at h
  cases h
  exact ⟨cs, first, us, rfl, hcs, hf, rfl, rfl, by rw [ofTokens_comments_word hcs hf]⟩

/-- Where a run of items comes from: a run of tokens up to a word. -/
theorem Item.exists_of_ofTokens_append {is js : List Item}
    (h : (Item.ofTokens ts).1 = is ++ js) : ∃ us vs, ts = us ++ vs ∧ EndsInWord us ∧
      (Item.ofTokens us).1 = is ∧ (Item.ofTokens vs).1 = js ∧
      (Item.ofTokens vs).2 = (Item.ofTokens ts).2 := by
  induction is generalizing ts with
  | nil => exact ⟨[], ts, rfl, endsInWord_nil, rfl, h, rfl⟩
  | cons i is ih =>
    obtain ⟨cs, first, us, rfl, hcs, hf, rfl, hus, hlast⟩ := exists_of_ofTokens_cons h
    obtain ⟨vs, ws, rfl, he, hvs, hws, hl⟩ := ih hus
    refine ⟨cs ++ first :: vs, ws, by simp, ?_, ?_, hws, hl.trans hlast⟩
    · exact endsInWord_append cs (he.cons hf) (List.cons_ne_nil first vs)
    · rw [ofTokens_comments_word hcs hf, hvs]

end Items

end KeyRemap
