import KeyRemap.Proofs.Token.Stretch

/-!
# Where tokens stand

`Spells p cs ts` says that a text which begins at `p` is the spellings of the tokens, each at its
place, with blanks between them. The tokens of a text spell it (`spells_of_tokenizeFrom`), and they
are the only tokens with their lexemes that do (`Spells.eq_of_tokenizeFrom`). So where the lexemes
of a text are known, any way to spell it by them tells where its tokens stand; `Stacked` is this for
a text whose lines are given by their lexemes.
-/
namespace KeyRemap

open Text

/-- The text, which begins at a place, consists of the tokens and blanks. -/
inductive Spells : Position → List Char → List Token → Prop
  | nil (p : Position) : Spells p [] []
  | blank {p : Position} {c : Char} {cs : List Char} {ts : List Token} (hc : isBlank c = true)
    (h : Spells (p.step c) cs ts) : Spells p (c :: cs) ts
  | token {p : Position} {l : Lexeme} {cs : List Char} {ts : List Token}
    (h : Spells (p.after l.spelling) cs ts) : Spells p (l.spelling ++ cs) (Token.place l p :: ts)

/-- What holds no line end stays on its line. -/
theorem line_after {cs : List Char} (h : '\n' ∉ cs) (p : Position) :
    (p.after cs).line = p.line := by
  induction cs generalizing p with
  | nil => rfl
  | cons c cs ih =>
    rw [List.mem_cons, not_or] at h
    rw [Position.after_cons, ih h.2, Position.step, if_neg (Ne.symm h.1)]

namespace Spells

variable {p : Position} {cs ds : List Char} {ts us : List Token}

theorem append (hc : Spells p cs ts) (hd : Spells (p.after cs) ds us) :
    Spells p (cs ++ ds) (ts ++ us) := by
  induction hc with
  | nil p => exact hd
  | blank hc _ ih => exact .blank hc (ih hd)
  | token _ ih =>
    rw [Position.after_append] at hd
    rw [List.append_assoc]
    exact .token (ih hd)

theorem blanks (h : ∀ c ∈ cs, isBlank c = true) (p : Position) : Spells p cs [] := by
  induction cs generalizing p with
  | nil => exact .nil p
  | cons c cs ih =>
    obtain ⟨hc, hcs⟩ := List.forall_mem_cons.1 h
    exact .blank hc (ih hcs _)

theorem spaces (n : Nat) (p : Position) : Spells p (Text.spaces n) [] :=
  blanks (fun c hc => by rw [List.eq_of_mem_replicate hc]; rfl) p

theorem lexeme (l : Lexeme) (p : Position) : Spells p l.spelling [Token.place l p] := by
  have := token (l := l) (nil (p.after l.spelling))
  rwa [List.append_nil] at this

/-- Text that is read as tokens with the lexemes by which it is spelled is read as those tokens. -/
theorem eq_of_tokenizeFrom (h : Spells p cs ts) (ht : tokenizeFrom p cs = .ok us)
    (hl : us.map (·.lexeme) = ts.map (·.lexeme)) : us = ts := by
  induction h generalizing us with
  | nil p =>
    rw [tokenizeFrom_nil] at ht
    cases ht
    rfl
  | blank hc _ ih =>
    rw [tokenizeFrom_blank hc] at ht
    exact ih ht hl
  | @token p l cs ts _ ih =>
    obtain ⟨u, us, rfl, rfl, hus⟩ := List.map_eq_cons_iff.1 hl
    -- the lexeme was read somewhere, so it has a first character and that is no blank
    obtain ⟨c, s, hs, hc⟩ := spelled_of_tokenizeFrom ht u List.mem_cons_self
    rw [hs, List.cons_append, tokenizeFrom.eq_def] at ht
    simp only [isBlank_eq_false_of_scan hc, Bool.false_eq_true, if_false] at ht
    split at ht
    · cases ht
    · rename_i l rest hscan
      split at ht
      · cases ht
      · rename_i vs hvs
        cases ht
        have hrest := (spelling_append_of_scan hscan).1
        rw [← List.cons_append, ← hs] at hrest
        obtain rfl := List.append_cancel_left hrest
        exact congrArg _ (ih hvs hus)

/-- A token without a line end in it ends on the line on which it begins. -/
theorem endLine_eq (h : Spells p cs ts) :
    ∀ t ∈ ts, '\n' ∉ t.lexeme.spelling → t.endLine = t.position.line := by
  induction h with
  | nil => simp
  | blank _ _ ih => exact ih
  | token _ ih => exact List.forall_mem_cons.2 ⟨fun hn => line_after hn _, ih⟩

end Spells

/-- The tokens of a text spell it. -/
theorem spells_of_tokenizeFrom {p : Position} {cs : List Char} {ts : List Token}
    (h : tokenizeFrom p cs = .ok ts) : Spells p cs ts := by
  fun_induction tokenizeFrom p cs generalizing ts with
  | case1 p => cases h; exact .nil p
  | case2 p c r hc ih => exact .blank hc (ih h)
  | case3 | case4 => cases h
  | case5 p c r hc l rest hs hlt us hr ih =>
    cases h
    rw [← (spelling_append_of_scan hs).1]
    exact .token (ih hr)

/-- Tokens of which each begins on the line where the one before ends, from one line to another. -/
inductive Abreast : Nat → List Token → Nat → Prop
  | nil (n : Nat) : Abreast n [] n
  | cons {n m : Nat} {t : Token} {ts : List Token} (ht : t.position.line = n)
    (hn : n ≤ t.endLine) (h : Abreast t.endLine ts m) : Abreast n (t :: ts) m

namespace Abreast

variable {n k m : Nat} {t : Token} {ts us : List Token}

theorem append (ht : Abreast n ts k) (hu : Abreast k us m) : Abreast n (ts ++ us) m := by
  induction ht with
  | nil => exact hu
  | cons ht hn _ ih => exact .cons ht hn (ih hu)

theorem line_le (h : Abreast n ts m) : n ≤ m := by
  induction h with
  | nil => exact Nat.le_refl _
  | cons _ hn _ ih => exact Nat.le_trans hn ih

theorem line_le_position (h : Abreast n ts m) : ∀ t ∈ ts, n ≤ t.position.line := by
  induction h with
  | nil => simp
  | cons ht hn _ ih => exact List.forall_mem_cons.2 ⟨ht.ge, fun u hu => hn.trans (ih u hu)⟩

/-- The last of the tokens ends on the last line. -/
theorem exists_getLast? (h : Abreast n ts m) (hne : ts ≠ []) :
    ∃ t, ts.getLast? = some t ∧ t.endLine = m := by
  induction h with
  | nil => exact absurd rfl hne
  | @cons n m t ts _ _ h ih =>
    cases ts with
    | nil =>
      cases h
      exact ⟨t, rfl, rfl⟩
    | cons u us =>
      obtain ⟨v, hv, he⟩ := ih (List.cons_ne_nil u us)
      exact ⟨v, by rw [List.getLast?_cons_cons, hv], he⟩

/-- Tokens that do not go on over the end of a line are all on one. -/
theorem line_eq (h : Abreast n ts m) (hs : ∀ t ∈ ts, t.endLine = t.position.line) :
    m = n ∧ ∀ t ∈ ts, t.position.line = n := by
  induction h with
  | nil => simp
  | cons ht _ _ ih =>
    obtain ⟨hst, hs⟩ := List.forall_mem_cons.1 hs
    rw [hst, ht] at ih
    obtain ⟨hm, hts⟩ := ih hs
    exact ⟨hm, List.forall_mem_cons.2 ⟨ht, hts⟩⟩

theorem split (h : Abreast n (ts ++ us) m) : ∃ k, Abreast n ts k ∧ Abreast k us m := by
  induction ts generalizing n with
  | nil => exact ⟨n, .nil n, h⟩
  | cons t ts ih =>
    cases h with
    | cons ht hn h =>
      obtain ⟨k, hts, hus⟩ := ih h
      exact ⟨k, .cons ht hn hts, hus⟩

end Abreast

/-- The line consists of the lexemes, with no line end between them. -/
def Lies (line : List Char) (ls : List Lexeme) : Prop :=
  ∀ p, ∃ ts, Spells p line ts ∧ ts.map (·.lexeme) = ls ∧ Abreast p.line ts (p.after line).line

namespace Lies

variable {as bs : List Char} {ls ms : List Lexeme}

theorem nil : Lies [] [] := fun p => ⟨[], .nil p, rfl, .nil p.line⟩

theorem append (ha : Lies as ls) (hb : Lies bs ms) : Lies (as ++ bs) (ls ++ ms) := by
  intro p
  obtain ⟨ts, hts, hl, hat⟩ := ha p
  obtain ⟨us, hus, hm, hbu⟩ := hb (p.after as)
  refine ⟨ts ++ us, hts.append hus, by rw [List.map_append, hl, hm], ?_⟩
  rw [Position.after_append]
  exact hat.append hbu

theorem spaces (n : Nat) : Lies (Text.spaces n) [] := by
  intro p
  refine ⟨[], .spaces n p, rfl, ?_⟩
  rw [line_after (by simp [Text.spaces])]
  exact .nil p.line

theorem lexeme (l : Lexeme) : Lies l.spelling [l] := fun p =>
  ⟨[Token.place l p], .lexeme l p, rfl, .cons rfl (line_le_after p l.spelling) (.nil _)⟩

end Lies

/-- Tokens on lines one below the other, from one line to that behind the last. -/
inductive Stacked : Nat → List (List Lexeme) → List Token → Nat → Prop
  | nil (n : Nat) : Stacked n [] [] n
  | cons {n k m : Nat} {row : List Lexeme} {rows : List (List Lexeme)} {ts us : List Token}
    (hl : ts.map (·.lexeme) = row) (ha : Abreast n ts k) (h : Stacked (k + 1) rows us m) :
    Stacked n (row :: rows) (ts ++ us) m

namespace Stacked

variable {n m : Nat} {as bs rows : List (List Lexeme)} {us : List Token}

theorem append {k : Nat} {vs : List Token} (ha : Stacked n as us k) (hb : Stacked k bs vs m) :
    Stacked n (as ++ bs) (us ++ vs) m := by
  induction ha with
  | nil => exact hb
  | cons hl hr _ ih =>
    rw [List.append_assoc]
    exact .cons hl hr (ih hb)

theorem le (h : Stacked n rows us m) : n ≤ m := by
  induction h with
  | nil => exact Nat.le_refl _
  | cons _ ha _ ih =>
    have := ha.line_le
    omega

theorem lexemes_eq (h : Stacked n rows us m) : us.map (·.lexeme) = rows.flatten := by
  induction h with
  | nil => rfl
  | cons hl _ _ ih => rw [List.map_append, hl, ih, List.flatten_cons]

/-- No token stands above the first line. -/
theorem line_le (h : Stacked n rows us m) : ∀ t ∈ us, n ≤ t.position.line := by
  induction h with
  | nil => simp
  | @cons n k m row rows ts us _ ha _ ih =>
    rw [List.forall_mem_append]
    refine ⟨ha.line_le_position, fun t ht => ?_⟩
    have := ha.line_le
    have := ih t ht
    omega

/-- The first token stands on the first line, if that is not empty. -/
theorem line_eq_of_mem_head? (h : Stacked n rows us m) (hr : [] ∉ rows) :
    ∀ t ∈ us.head?, t.position.line = n := by
  cases h with
  | nil => simp
  | @cons _ k _ row rows ts us hl ha h =>
    cases ha with
    | nil => simp [← hl] at hr
    | cons ht => simpa using ht

/-- A line above other lines. -/
theorem uncons {row : List Lexeme} (h : Stacked n (row :: rows) us m) :
    ∃ ts vs k, us = ts ++ vs ∧ ts.map (·.lexeme) = row ∧ Abreast n ts k ∧
      Stacked (k + 1) rows vs m := by
  cases h with
  | cons hl ha h => exact ⟨_, _, _, rfl, hl, ha, h⟩

theorem split (h : Stacked n (as ++ bs) us m) :
    ∃ ts vs k, us = ts ++ vs ∧ Stacked n as ts k ∧ Stacked k bs vs m := by
  induction as generalizing n us with
  | nil => exact ⟨[], us, n, rfl, .nil n, h⟩
  | cons a as ih =>
    obtain ⟨xs, ys, k, rfl, hl, ha, h⟩ := h.uncons
    obtain ⟨ts, vs, j, rfl, hts, hvs⟩ := ih h
    exact ⟨xs ++ ts, vs, j, (List.append_assoc _ _ _).symm, .cons hl ha hts, hvs⟩

end Stacked

/-- The lexemes that begin above a line. -/
def lexemesAbove (ts : List Token) (n : Nat) : List Lexeme :=
  (ts.filter (·.position.line < n)).map (·.lexeme)

/-- The lexemes that begin on a line. -/
def lexemesOn (ts : List Token) (n : Nat) : List Lexeme :=
  (ts.filter (·.position.line = n)).map (·.lexeme)

namespace Stacked

variable {n m : Nat} {rows : List (List Lexeme)} {us : List Token}

/-- The lines of tokens that do not go on over the end of a line are told by the tokens. -/
theorem lexemesAbove_eq (h : Stacked n rows us m) (hs : ∀ t ∈ us, t.endLine = t.position.line)
    (i : Nat) : lexemesAbove us (n + i) = (rows.take i).flatten := by
  induction h generalizing i with
  | nil => simp [lexemesAbove]
  | @cons n k m row rows ts us hl ha h ih =>
    obtain ⟨hts, hus⟩ := List.forall_mem_append.1 hs
    obtain ⟨rfl, hline⟩ := ha.line_eq hts
    cases i with
    | zero =>
      have hnone : (ts ++ us).filter (·.position.line < k) = [] :=
        List.filter_eq_nil_iff.2 fun t ht => by simpa using (Stacked.cons hl ha h).line_le t ht
      rw [lexemesAbove, Nat.add_zero, hnone]
      rfl
    | succ i =>
      have hall : ts.filter (·.position.line < k + (i + 1)) = ts :=
        List.filter_eq_self.2 fun t ht => by simp [hline t ht]
      have hrest := ih hus i
      rw [lexemesAbove, show k + 1 + i = k + (i + 1) by omega] at hrest
      rw [lexemesAbove, List.filter_append, hall, List.map_append, hl, hrest]
      rfl

theorem lexemesOn_eq (h : Stacked n rows us m) (hs : ∀ t ∈ us, t.endLine = t.position.line)
    (i : Nat) : lexemesOn us (n + i) = rows[i]?.getD [] := by
  induction h generalizing i with
  | nil => simp [lexemesOn]
  | @cons n k m row rows ts us hl ha h ih =>
    obtain ⟨hts, hus⟩ := List.forall_mem_append.1 hs
    obtain ⟨rfl, hline⟩ := ha.line_eq hts
    cases i with
    | zero =>
      have hall : ts.filter (·.position.line = k) = ts :=
        List.filter_eq_self.2 fun t ht => by simp [hline t ht]
      have hnone : us.filter (·.position.line = k) = [] := List.filter_eq_nil_iff.2 fun t ht => by
        have := h.line_le t ht
        simp only [decide_eq_true_eq]
        omega
      simp [lexemesOn, hall, hnone, hl]
    | succ i =>
      have hnone : ts.filter (·.position.line = k + (i + 1)) = [] :=
        List.filter_eq_nil_iff.2 fun t ht => by simp [hline t ht]
      have hrest := ih hus i
      rw [lexemesOn, show k + 1 + i = k + (i + 1) by omega] at hrest
      rw [lexemesOn, List.filter_append, hnone, List.nil_append, hrest]
      rfl

end Stacked

/-- Where the tokens of a text stand whose lines are given by their lexemes. -/
theorem stacked_of_tokenizeFrom {lines : List (List Char)} {rows : List (List Lexeme)}
    (h : List.Forall₂ Lies lines rows) {p : Position} {us : List Token}
    (hu : tokenizeFrom p (ofLines lines) = .ok us)
    (hl : us.map (·.lexeme) = rows.flatten) : ∃ m, Stacked p.line rows us m := by
  have hspells : ∃ ts m, Spells p (ofLines lines) ts ∧ Stacked p.line rows ts m := by
    clear hu hl
    induction h generalizing p with
    | nil => exact ⟨[], p.line, .nil p, .nil p.line⟩
    | @cons line row lines rows hline _ ih =>
      obtain ⟨ts, hts, hl, ha⟩ := hline p
      obtain ⟨vs, m, hvs, hm⟩ := ih (p := (p.after line).step '\n')
      refine ⟨ts ++ vs, m, ?_, .cons hl ha hm⟩
      rw [ofLines_cons]
      exact hts.append (.blank rfl hvs)
  obtain ⟨ts, m, hts, hm⟩ := hspells
  obtain rfl := hts.eq_of_tokenizeFrom hu (hl.trans hm.lexemes_eq.symm)
  exact ⟨m, hm⟩

end KeyRemap
