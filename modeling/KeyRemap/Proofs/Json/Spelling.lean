import KeyRemap.Json.Read
import KeyRemap.Json.Write
import KeyRemap.Proofs.Token.Spelling

/-!
# The words of a written JSON text

How the reader cuts what the writer spells: marks and blanks (`Cuts.mark`, `Cuts.lineAt`), a quoted
string, which is one word with all its characters (`Cuts.quote`), and a numeral (`Cuts.int`). A
numeral has no end of its own, so what stands behind it is part of the statement.
-/
namespace KeyRemap.Json

/-- The text `cs` is cut into the words `ws` where the text `r` follows. The reader has a bound on
the number of words, and what is left of it is enough for what follows. -/
def Cuts (cs : List Char) (ws : List Word) (r : List Char) : Prop :=
  ∀ fuel, (cs ++ r).length ≤ fuel → ∃ left, r.length ≤ left ∧
    wordsWithin fuel (cs ++ r) = (wordsWithin left r).map (ws ++ ·)

namespace Cuts

variable {cs ds r : List Char} {ws vs : List Word}

theorem append (hc : Cuts cs ws (ds ++ r)) (hd : Cuts ds vs r) :
    Cuts (cs ++ ds) (ws ++ vs) r := by
  intro fuel hf
  rw [List.append_assoc] at hf ⊢
  obtain ⟨mid, hm, he⟩ := hc fuel hf
  obtain ⟨left, hl, hw⟩ := hd mid hm
  refine ⟨left, hl, ?_⟩
  rw [he, hw, Option.map_map]
  simp [Function.comp_def]

/-- A text that is followed by nothing has just its words. -/
theorem words?_eq (h : Cuts cs ws []) : words? cs = some ws := by
  obtain ⟨left, -, hw⟩ := h cs.length (by simp)
  rw [List.append_nil] at hw
  rw [words?, hw]
  cases left <;> simp [wordsWithin]

theorem blank {c : Char} (hc : c = ' ' ∨ c = '\n') (r : List Char) : Cuts [c] [] r := by
  intro fuel hf
  match fuel, hf with
  | fuel + 1, hf =>
    refine ⟨fuel, Nat.le_of_succ_le_succ hf, ?_⟩
    rcases hc with rfl | rfl <;> simp [wordsWithin]

theorem blanks (h : ∀ c ∈ cs, c = ' ' ∨ c = '\n') (r : List Char) : Cuts cs [] r := by
  induction cs with
  | nil => exact fun fuel hf => ⟨fuel, hf, by simp⟩
  | cons c cs ih =>
    exact append (blank (h c List.mem_cons_self) (cs ++ r))
      (ih fun d hd => h d (List.mem_cons_of_mem c hd))

theorem lineAt (level : Nat) (r : List Char) : Cuts (Json.lineAt level).toList [] r := by
  refine blanks (fun c hc => ?_) r
  simp only [Json.lineAt, Text.spaces, String.toList_append, String.toList_ofList,
    List.mem_append, List.mem_replicate] at hc
  rcases hc with hc | ⟨-, rfl⟩
  · exact .inr (by simpa using hc)
  · exact .inl rfl

theorem line (h : Cuts cs ws r) (level : Nat) : Cuts ((Json.lineAt level).toList ++ cs) ws r :=
  append (lineAt level (cs ++ r)) h

/-- A word begins with a character that is not blank. -/
theorem word {c : Char} {w : Word} (hw : word? c (cs ++ r) = some (w, r))
    (hc : c ∉ [' ', '\n', '\t', '\r']) : Cuts (c :: cs) [w] r := by
  simp only [List.mem_cons, List.not_mem_nil, or_false, not_or] at hc
  obtain ⟨hs, hn, ht, hr⟩ := hc
  intro fuel hf
  match fuel, hf with
  | fuel + 1, hf =>
    refine ⟨fuel, ?_, ?_⟩
    · simp only [List.cons_append, List.length_cons, List.length_append] at hf
      omega
    · simp only [List.cons_append, wordsWithin, hs, hn, ht, hr, hw, beq_iff_eq, or_self,
        Bool.or_eq_true, if_false, Option.bind_eq_bind, Option.bind_some]
      cases wordsWithin fuel r <;> rfl

/-- A mark stands alone. -/
theorem mark {c : Char} {w : Word} (hw : ∀ s, word? c s = some (w, s))
    (hc : c ∉ [' ', '\n', '\t', '\r']) (h : Cuts cs ws r) : Cuts (c :: cs) (w :: ws) r := by
  have hmark : Cuts [c] [w] (cs ++ r) := word (hw (cs ++ r)) hc
  exact hmark.append h

end Cuts

section Strings

/-- Every character of a string is written as itself, behind a backslash, or by its number. -/
theorem escape_cases (c : Char) :
    (escape c).toList = [c] ∧ 32 ≤ c.toNat ∧ c ≠ '"' ∧ c ≠ '\\' ∨
    (∃ e, (escape c).toList = ['\\', e] ∧ e ≠ 'u' ∧ unescape? e = some c) ∨
    ∃ x y, (escape c).toList = ['\\', 'u', '0', '0', x, y] ∧
      hexValue4? '0' '0' x y = some c.toNat := by
  unfold escape
  split
  · exact .inr (.inl ⟨'"', rfl, by decide, rfl⟩)
  · exact .inr (.inl ⟨'\\', rfl, by decide, rfl⟩)
  · exact .inr (.inl ⟨'n', rfl, by decide, rfl⟩)
  · exact .inr (.inl ⟨'r', rfl, by decide, rfl⟩)
  · exact .inr (.inl ⟨'t', rfl, by decide, rfl⟩)
  · exact .inr (.inl ⟨'b', rfl, by decide, rfl⟩)
  · exact .inr (.inl ⟨'f', rfl, by decide, rfl⟩)
  · rename_i hquote hslash _ _ _ _ _
    split
    · rename_i hlt
      have hvalue : ∀ n < 16, hexValue4? '0' '0' '0' n.digitChar = some n := by decide
      refine .inr (.inr ⟨'0', c.toNat.digitChar, ?_, hvalue _ hlt⟩)
      simp [Nat.toDigits_of_lt_base hlt]
    · split
      · rename_i hle hlt
        -- Of two digits the first is one, since the number is below thirty-two.
        have hvalue : ∀ n < 32, 16 ≤ n → Nat.toDigits 16 n = ['1', (n % 16).digitChar] ∧
            hexValue4? '0' '0' '1' (n % 16).digitChar = some n := by decide
        obtain ⟨hdigits, hnumber⟩ := hvalue _ hlt (Nat.not_lt.1 hle)
        refine .inr (.inr ⟨'1', (c.toNat % 16).digitChar, ?_, hnumber⟩)
        simp [hdigits]
      · rename_i hle
        exact .inl ⟨by simp, Nat.not_lt.1 hle, hquote, hslash⟩

theorem stringBody_escape (c : Char) (r : List Char) :
    stringBody ((escape c).toList ++ r) =
      (stringBody r).map fun (numbers, rest) => (c.toNat :: numbers, rest) := by
  obtain ⟨he, hc, hquote, hslash⟩ | ⟨e, he, hu, hv⟩ | ⟨x, y, he, hv⟩ := escape_cases c
  · rw [he, List.singleton_append, stringBody]
    · simp only [Nat.not_lt.2 hc, hslash, decide_false, beq_iff_eq, Bool.false_or, if_false]
      cases stringBody r <;> rfl
    · exact hquote
    · rintro _ _ _ _ _ rfl
      exact absurd rfl hslash
    · rintro _ _ rfl
      exact absurd rfl hslash
  · rw [he, List.cons_append, List.singleton_append, stringBody]
    · simp only [hv]
      cases stringBody r <;> rfl
    · rintro _ _ _ _ _ rfl
      exact absurd rfl hu
  · rw [he]
    simp only [List.cons_append, List.nil_append, stringBody, hv]
    cases stringBody r <;> rfl

/-- The reader finds the characters of a string by their numbers. -/
theorem stringBody_quote (cs r : List Char) :
    stringBody ((String.join (cs.map escape)).toList ++ '"' :: r) =
      some (cs.map Char.toNat, r) := by
  induction cs with
  | nil => simp [stringBody]
  | cons c cs ih =>
    rw [List.map_cons, String.join_cons, String.toList_append, List.append_assoc,
      stringBody_escape, ih]
    rfl

/-- No character has the number of half a surrogate pair. -/
theorem characters?_map_toNat (cs : List Char) : characters? (cs.map Char.toNat) = some cs := by
  induction cs with
  | nil => rfl
  | cons c cs ih =>
    have hvalid : c.toNat < 0xD800 ∨ 0xDFFF < c.toNat := by
      rcases c.valid with h | ⟨h, -⟩
      · exact .inl h
      · exact .inr h
    rw [List.map_cons, characters?.eq_def]
    simp only
    rw [if_neg (by omega), if_neg (by omega), ih, Char.ofNat_toNat]
    rfl

theorem Cuts.quote (s : String) (r : List Char) :
    Cuts (Json.quote s).toList [.text (some s)] r := by
  have htext : (Json.quote s).toList =
      '"' :: ((String.join (s.toList.map escape)).toList ++ ['"']) := by
    simp [Json.quote]
  rw [htext]
  refine Cuts.word ?_ (by decide)
  rw [List.append_assoc, List.singleton_append]
  simp only [word?, stringBody_quote, characters?_map_toNat, Option.map_some, String.ofList_toList]

end Strings

section Numbers

/-- What may stand behind a numeral: a comma, or the end of its line. -/
def Ends (r : List Char) : Prop := ∀ c ∈ r.head?, c = ',' ∨ c = '\n'

theorem Ends.cases {r : List Char} (h : Ends r) : r = [] ∨ ∃ s, r = ',' :: s ∨ r = '\n' :: s := by
  cases r with
  | nil => exact .inl rfl
  | cons c s =>
    rcases h c rfl with rfl | rfl
    · exact .inr ⟨s, .inl rfl⟩
    · exact .inr ⟨s, .inr rfl⟩

theorem value_toDigits (n : Nat) : Text.Decimal.value (Nat.toDigits 10 n) = n :=
  Nat.ofDigitChars_ten_toDigits

/-- Only zero is written with a leading zero. -/
theorem toDigits_append_ne {n : Nat} (hn : n ≠ 0) (r s : List Char) :
    Nat.toDigits 10 n ++ r ≠ '0' :: s := by
  induction n using Nat.strongRecOn generalizing r with
  | ind n ih =>
    by_cases hlt : n < 10
    · have hdigit : ∀ d < 10, d ≠ 0 → d.digitChar ≠ '0' := by decide
      simp [Nat.toDigits_of_lt_base hlt, hdigit n hlt hn]
    · rw [Nat.toDigits_of_base_le (by decide) (Nat.not_lt.1 hlt), List.append_assoc]
      exact ih (n / 10) (by omega) (by omega) _

theorem spanDigits_toDigits (n : Nat) {r : List Char} (hr : Ends r) :
    spanDigits (Nat.toDigits 10 n ++ r) = (Nat.toDigits 10 n, r) := by
  have hdigits : ∀ c ∈ Nat.toDigits 10 n, c.isDigit = true := fun c hc =>
    Nat.isDigit_of_mem_toDigits (by decide) (by decide) hc
  have hstop : ∀ c ∈ r.head?, c.isDigit = false := by
    intro c hc
    rcases hr c hc with rfl | rfl <;> rfl
  rw [spanDigits, takeWhile_append_stop hdigits hstop, dropWhile_append_stop hdigits hstop]

theorem fraction?_of_ends {r : List Char} (hr : Ends r) : fraction? r = some ([], r) := by
  obtain rfl | ⟨s, rfl | rfl⟩ := hr.cases <;> rfl

theorem exponent?_of_ends {r : List Char} (hr : Ends r) : exponent? r = some ([], r) := by
  obtain rfl | ⟨s, rfl | rfl⟩ := hr.cases <;> rfl

theorem number?_toDigits {negative : Bool} {n : Nat} {r : List Char} (hr : Ends r)
    (hn : if negative then n ≠ 0 ∧ fitsSigned (-n) = true else fitsUnsigned n = true) :
    number? negative (Nat.toDigits 10 n ++ r) =
      some (.int (if negative then -n else n), r) := by
  -- Zero has a case of its own in the reader, which no other numeral gets into.
  by_cases hzero : n = 0
  · subst hzero
    rw [Nat.toDigits_zero, List.singleton_append, number?]
    simp only [Option.bind_eq_bind, Option.bind_some, fraction?_of_ends hr, exponent?_of_ends hr]
    cases negative <;> simp_all [Text.Decimal.value, Text.Decimal.push]
  · rw [number?]
    · simp only [spanDigits_toDigits n hr, List.isEmpty_iff, Nat.toDigits_ne_nil, if_false,
        Option.bind_eq_bind, Option.bind_some, fraction?_of_ends hr, exponent?_of_ends hr,
        value_toDigits, List.isEmpty_nil, Bool.true_and]
      refine if_pos ?_
      cases negative <;> simp_all
    · exact fun s hs => toDigits_append_ne hzero r s hs

/-- A word that begins with a digit is a number. -/
theorem word?_of_isDigit {c : Char} (hc : c.isDigit = true) (r : List Char) :
    word? c r = (number? false (c :: r)).map fun (j, rest) => (.scalar j, rest) := by
  unfold word?
  split <;> first | exact absurd hc (by decide) | rfl

/-- An integer of 64 bits is one word. -/
theorem Cuts.int {value : Int} (hv : fitsSigned value = true ∨ fitsUnsigned value = true)
    {r : List Char} (hr : Ends r) : Cuts (toString value).toList [.scalar (.int value)] r := by
  cases value with
  | ofNat n =>
    have htext : (toString (Int.ofNat n)).toList = Nat.toDigits 10 n := Nat.toList_repr
    have hfits : fitsUnsigned n = true := by
      simp only [fitsSigned, fitsUnsigned, Bool.and_eq_true, decide_eq_true_eq,
        Int.ofNat_eq_natCast] at hv ⊢
      omega
    rw [htext]
    obtain ⟨c, cs, hcs⟩ := List.exists_cons_of_ne_nil (Nat.toDigits_ne_nil : Nat.toDigits 10 n ≠ [])
    have hc : c.isDigit = true :=
      Nat.isDigit_of_mem_toDigits (by decide) (by decide) (hcs ▸ List.mem_cons_self)
    rw [hcs]
    refine Cuts.word ?_ fun hblank => ?_
    · rw [word?_of_isDigit hc, ← List.cons_append, ← hcs,
        number?_toDigits hr (by simpa using hfits)]
      rfl
    · have hnone : [' ', '\n', '\t', '\r'].all (!·.isDigit) = true := rfl
      simpa [hc] using List.all_eq_true.1 hnone c hblank
  | negSucc n =>
    have htext : (toString (Int.negSucc n)).toList = '-' :: Nat.toDigits 10 (n + 1) := by
      rw [show toString (Int.negSucc n) = "-" ++ Nat.repr (n + 1) from rfl, String.toList_append,
        Nat.toList_repr]
      rfl
    have hfits : fitsSigned (-(n + 1 : Nat)) = true := by
      simp only [fitsSigned, fitsUnsigned, Bool.and_eq_true, decide_eq_true_eq] at hv ⊢
      omega
    rw [htext]
    refine Cuts.word ?_ (by decide)
    have hnumber : number? true (Nat.toDigits 10 (n + 1) ++ r) =
        some (.int (-(n + 1 : Nat)), r) := number?_toDigits hr (by simpa using hfits)
    rw [word?, hnumber]
    rfl

end Numbers

end KeyRemap.Json
