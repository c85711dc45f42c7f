import KeyRemap.Proofs.Token.Places
import Mathlib.Data.Nat.Digits.Defs

/-!
# What tokens keep of their text

A text is the spellings of its tokens with nothing but blanks between them. Each token stands where
the text in front of it ends, and a string or a number has the value that its spelling denotes. Main
statement: `tokenize_lossless`. Places are told here by counting in the text in front of them,
values by the spellings alone, so that neither mentions how tokens are read.
-/
namespace KeyRemap

open Text

namespace Position

/-- The place behind a text: one line more than it has line ends, and one column more than it has
characters behind the last of them. -/
def behind (cs : List Char) : Position :=
  ⟨1 + cs.count '\n', 1 + (cs.reverse.takeWhile (· != '\n')).length⟩

@[simp] theorem line_behind (cs : List Char) : (behind cs).line = 1 + cs.count '\n' := rfl

theorem after_start (cs : List Char) : start.after cs = behind cs := by
  induction cs using List.reverseRecOn with
  | nil => rfl
  | append_singleton cs c ih =>
    rw [after_append, ih]
    by_cases hc : c = '\n'
    · simp [behind, step, hc, Nat.add_assoc]
    · simp [behind, step, hc, Nat.add_comm]

theorem after_behind (cs ds : List Char) : (behind cs).after ds = behind (cs ++ ds) := by
  rw [← after_start, ← after_start, after_append]

/-- In front of another place: on a line above, or on the same line and further left. -/
def Before (p q : Position) : Prop := p.line < q.line ∨ p.line = q.line ∧ p.column < q.column

theorem Before.ne {p q : Position} (h : p.Before q) : p ≠ q := by
  rintro rfl
  simp [Before] at h

theorem Before.trans {p q r : Position} (h : p.Before q) (g : q.Before r) : p.Before r := by
  unfold Before at *
  omega

theorem before_step (p : Position) (c : Char) : p.Before (p.step c) := by
  unfold Before step
  split <;> simp

theorem before_after (p : Position) {cs : List Char} (h : cs ≠ []) : p.Before (p.after cs) := by
  induction cs generalizing p with
  | nil => exact absurd rfl h
  | cons c cs ih =>
    cases cs with
    | nil => exact before_step p c
    | cons d cs => exact (before_step p c).trans (ih _ (List.cons_ne_nil d cs))

end Position

/-- What the spelling of a string says between its quotes. -/
def unescaped : List Char → List Char
  | [] => []
  | '\\' :: '"' :: cs => '"' :: unescaped cs
  | '\\' :: '\\' :: cs => '\\' :: unescaped cs
  | '\\' :: 'n' :: cs => '\n' :: unescaped cs
  | '\\' :: 't' :: cs => '\t' :: unescaped cs
  | c :: cs => c :: unescaped cs

theorem unescaped_cons {c : Char} (hc : c ≠ '\\') (cs : List Char) :
    unescaped (c :: cs) = c :: unescaped cs := by
  conv_lhs => rw [unescaped.eq_def]
  split <;> simp_all

/-- The number that has the decimal digits. -/
def numeral (digits : List Char) : Nat :=
  Nat.ofDigits 10 (digits.reverse.map fun c => c.toNat - '0'.toNat)

theorem value_eq_numeral (digits : List Char) : Decimal.value digits = numeral digits := by
  induction digits using List.reverseRecOn with
  | nil => rfl
  | append_singleton cs c ih =>
    rw [Decimal.value_append_singleton, ih, Decimal.push, numeral, numeral, List.reverse_append,
      List.reverse_singleton, List.singleton_append, List.map_cons, Nat.ofDigits_cons]
    exact Nat.add_comm _ _

namespace Lexeme

/-- A string has the value that stands between its quotes, and a number the value of its digits and
its sign, which is in the range of signed integers. -/
def Denotes : Lexeme → Prop
  | .quoted value raw =>
    ∃ body, raw.toList = '"' :: body ++ ['"'] ∧ value.toList = unescaped body
  | .number value raw =>
    (∃ digits, digits ≠ [] ∧ (∀ c ∈ digits, c.isDigit = true) ∧
      (raw.toList = digits ∧ value = numeral digits ∨
        raw.toList = '-' :: digits ∧ value = -(numeral digits : Int))) ∧
      -9223372036854775808 ≤ value ∧ value ≤ 9223372036854775807
  | _ => True

end Lexeme

theorem exists_body_of_stringBody {cs value raw rest : List Char}
    (h : stringBody cs = .ok (value, raw, rest)) :
    ∃ body, raw = body ++ ['"'] ∧ value = unescaped body := by
  fun_induction stringBody cs generalizing value raw rest with
  | case1 | case2 | case4 | case5 | case6 | case8 => simp at h
  | case3 r => cases h; exact ⟨[], rfl, rfl⟩
  | case7 c r v hv value' raw' rest' hr ih =>
    cases h
    obtain ⟨body, rfl, rfl⟩ := ih hr
    refine ⟨'\\' :: c :: body, rfl, ?_⟩
    unfold unescape at hv
    split at hv <;> cases hv <;> rfl
  | case9 c r _ _ hend hesc value' raw' rest' hr ih =>
    cases h
    obtain ⟨body, rfl, rfl⟩ := ih hr
    -- the character is no backslash, or it would begin an escape
    have hc : c ≠ '\\' := by
      cases r with
      | nil => exact fun hc => hend hc rfl
      | cons d r => exact fun hc => hesc d r hc rfl
    exact ⟨c :: body, rfl, (unescaped_cons hc body).symm⟩

theorem denotes_of_scanNumber {negative : Bool} {r rest : List Char} {l : Lexeme}
    (h : scanNumber negative r = .ok (l, rest)) : l.Denotes := by
  unfold scanNumber at h
  simp only at h
  split at h
  · cases h
  · rename_i hd
    have hdigits : ∀ c ∈ r.takeWhile Char.isDigit, c.isDigit = true :=
      fun c hc => List.all_eq_true.1 List.all_takeWhile c hc
    generalize r.takeWhile Char.isDigit = digits at h hd hdigits
    generalize hv : (if negative then -(Decimal.value digits : Int) else Decimal.value digits) =
      value at h
    split at h
    · rename_i hf
      cases h
      refine ⟨⟨digits, by simpa using hd, hdigits, ?_⟩, by simpa [fitsSigned] using hf⟩
      cases negative <;> simp [← hv, value_eq_numeral]
    · cases h

/-- What is read from any text has the value that its spelling denotes. -/
theorem denotes_of_scan {c : Char} {r rest : List Char} {l : Lexeme}
    (h : scan c r = .ok (l, rest)) : l.Denotes := by
  obtain ⟨m, -, rfl⟩ | ⟨-, h⟩ | ⟨-, h⟩ | ⟨-, h⟩ | ⟨-, h⟩ | ⟨-, text, rfl⟩ := scan_cases h
  · trivial
  · unfold scanString at h
    split at h
    · cases h
    · cases h
    · rename_i value raw rest' hb
      cases h
      obtain ⟨body, rfl, rfl⟩ := exists_body_of_stringBody hb
      exact ⟨body, by simp, by simp⟩
  · unfold scanComment at h
    split at h
    · cases h; trivial
    · split at h <;> cases h; trivial
    · cases h
  · exact denotes_of_scanNumber h
  · exact denotes_of_scanNumber h
  · trivial

theorem isNamePart_of_scan {c : Char} {r rest : List Char} {text : String}
    (h : scan c r = .ok (.name text, rest)) : ∀ d ∈ text.toList, isNamePart d = true := by
  unfold scan at h
  split at h; · cases h
  split at h; · obtain ⟨value, raw, h⟩ := exists_quoted_of_scanString h; cases h
  split at h; · cases isComment_of_scanComment h
  split at h; · obtain ⟨value, raw, h, -⟩ := exists_number_of_scanNumber h; cases h
  split at h; · obtain ⟨value, raw, h, -⟩ := exists_number_of_scanNumber h; cases h
  split at h
  · rename_i hc
    cases h
    rw [String.toList_ofList]
    exact List.forall_mem_cons.2 ⟨isNamePart_of_isNameStart hc,
      fun d hd => List.all_eq_true.1 List.all_takeWhile d hd⟩
  · cases h

/-- A line comment ends on its line, in front of the blanks at the end of that. -/
theorem exists_trimEnd_of_scan {c : Char} {r rest : List Char} {text : String}
    (h : scan c r = .ok (.lineComment text, rest)) :
    ∃ cs, text.toList = trimEnd cs ∧ '\n' ∉ cs := by
  have hc := scanComment_of_scan h rfl
  unfold scanComment at hc
  split at hc
  · rename_i r
    cases hc
    refine ⟨('/' :: '/' :: r).takeWhile (· != '\n'), String.toList_ofList, fun hm => ?_⟩
    simpa using List.all_eq_true.1 List.all_takeWhile _ hm
  · split at hc <;> cases hc
  · cases hc

/-- No lexeme ends in a blank. -/
theorem getLast?_spelling_of_scan {c : Char} {r rest : List Char} {l : Lexeme}
    (h : scan c r = .ok (l, rest)) : ∀ d ∈ l.spelling.getLast?, isBlank d = false := by
  have hd := denotes_of_scan h
  cases l with
  | name text =>
    intro d hd
    exact isBlank_eq_false_of_isNamePart (isNamePart_of_scan h d (List.mem_of_getLast? hd))
  | quoted value raw =>
    obtain ⟨body, hb, -⟩ := hd
    rw [Lexeme.spelling, hb, List.getLast?_concat]
    rintro d ⟨⟩
    rfl
  | number value raw =>
    obtain ⟨⟨digits, hn, hall, hraw⟩, -⟩ := hd
    have hlast : raw.toList.getLast? = digits.getLast? := by
      obtain ⟨c, digits, rfl⟩ := List.exists_cons_of_ne_nil hn
      rcases hraw with ⟨hraw, -⟩ | ⟨hraw, -⟩ <;> rw [hraw]
      exact List.getLast?_cons_cons
    intro d hd
    rw [Lexeme.spelling, hlast] at hd
    have hdigit := hall d (List.mem_of_getLast? hd)
    exact isBlank_eq_false_of_isNamePart (isNamePart_of_isDigit hdigit)
  | mark m =>
    rintro d ⟨⟩
    exact isBlank_mark m
  | lineComment text =>
    obtain ⟨cs, ht, -⟩ := exists_trimEnd_of_scan h
    rw [Lexeme.spelling, ht]
    exact fun d hd => isBlank_of_mem_getLast?_trimEnd hd
  | blockComment text =>
    have hc := scanComment_of_scan h rfl
    unfold scanComment at hc
    split at hc
    · cases hc
    · split at hc
      · cases hc
      · rename_i hb
        cases hc
        obtain ⟨body, rfl, -⟩ := exists_body_of_blockBody hb
        have hlast : ('/' :: '*' :: (body ++ ['*', '/'])).getLast? = some '/' := by
          simp [List.getLast?_cons]
        rw [Lexeme.spelling, String.toList_ofList, hlast]
        rintro d ⟨⟩
        rfl
    · cases hc

theorem newline_notMem_of_stringBody {cs value raw rest : List Char}
    (h : stringBody cs = .ok (value, raw, rest)) : '\n' ∉ raw := by
  fun_induction stringBody cs generalizing value raw rest with
  | case1 | case2 | case4 | case5 | case6 | case8 => simp at h
  | case3 r => cases h; simp
  | case7 c r v hv value' raw' rest' hr ih =>
    cases h
    have hc : '\n' ≠ c := by
      rintro rfl
      cases hv
    simpa [hc] using ih hr
  | case9 c r hc _ _ _ value' raw' rest' hr ih =>
    cases h
    simpa [Ne.symm hc] using ih hr

theorem newline_notMem_quoted_of_scan {c : Char} {r rest : List Char} {value raw : String}
    (h : scan c r = .ok (.quoted value raw, rest)) : '\n' ∉ raw.toList := by
  obtain ⟨m, -, hm⟩ | ⟨-, h⟩ | ⟨-, h⟩ | ⟨-, h⟩ | ⟨-, h⟩ | ⟨-, text, ht⟩ := scan_cases h
  · cases hm
  · unfold scanString at h
    split at h
    · cases h
    · cases h
    · rename_i hb
      cases h
      simpa using newline_notMem_of_stringBody hb
  · cases isComment_of_scanComment h
  · obtain ⟨i, raw, h, -⟩ := exists_number_of_scanNumber h
    cases h
  · obtain ⟨i, raw, h, -⟩ := exists_number_of_scanNumber h
    cases h
  · cases ht

/-- Only block comments go on over the end of a line. -/
theorem newline_notMem_spelling {l : Lexeme} (hl : l.Spelled)
    (hb : ∀ text, l = .blockComment text → '\n' ∉ text.toList) : '\n' ∉ l.spelling := by
  obtain ⟨c, s, -, h⟩ := hl
  cases l with
  | name text => exact fun hm => by cases isNamePart_of_scan h '\n' hm
  | quoted value raw => exact newline_notMem_quoted_of_scan h
  | number value raw =>
    obtain ⟨⟨digits, -, hall, hraw⟩, -⟩ := denotes_of_scan h
    have hdigits : '\n' ∉ digits := fun hm => by cases hall '\n' hm
    rw [Lexeme.spelling]
    rcases hraw with ⟨hraw, -⟩ | ⟨hraw, -⟩ <;> rw [hraw]
    · exact hdigits
    · simpa using hdigits
  | mark m => cases m <;> simp [Lexeme.spelling, Mark.char]
  | lineComment text =>
    obtain ⟨cs, ht, hn⟩ := exists_trimEnd_of_scan h
    rw [Lexeme.spelling, ht]
    exact fun hm => hn (mem_of_mem_trimEnd hm)
  | blockComment text => exact hb text rfl

/-- The line of the last character of a lexeme is the line behind it. -/
theorem line_behind_spelling {l : Lexeme} (hl : l.Spelled) (before : List Char) :
    (Position.behind (before ++ l.spelling)).line =
      (Position.behind (before ++ l.spelling.dropLast)).line := by
  obtain ⟨c, s, hs, h⟩ := hl
  have hne : l.spelling ≠ [] := by simp [hs]
  have hlast := getLast?_spelling_of_scan h (l.spelling.getLast hne)
    (List.getLast?_eq_some_getLast hne)
  have hn : l.spelling.getLast hne ≠ '\n' := by
    intro he
    rw [he] at hlast
    cases hlast
  conv_lhs => rw [← List.dropLast_append_getLast hne]
  simp [hn]

namespace Spells

variable {p : Position} {cs : List Char} {t : Token} {ts : List Token}

theorem isBlank_of_nil (h : Spells p cs []) : ∀ c ∈ cs, isBlank c = true := by
  generalize hts : [] = ts at h
  induction h with
  | nil => simp
  | blank hc _ ih => exact List.forall_mem_cons.2 ⟨hc, ih hts⟩
  | token => cases hts

/-- The first token of a text, behind a gap. -/
theorem uncons (h : Spells p cs (t :: ts)) : ∃ gap ds, cs = gap ++ t.lexeme.spelling ++ ds ∧
    (∀ c ∈ gap, isBlank c = true) ∧ t = Token.place t.lexeme (p.after gap) ∧
    Spells (p.after (gap ++ t.lexeme.spelling)) ds ts := by
  generalize hts : t :: ts = us at h
  induction h with
  | nil => cases hts
  | @blank p c cs us hc _ ih =>
    obtain ⟨gap, ds, rfl, hgap, ht, hs⟩ := ih hts
    exact ⟨c :: gap, ds, rfl, List.forall_mem_cons.2 ⟨hc, hgap⟩, ht, hs⟩
  | @token p l ds us h =>
    cases hts
    exact ⟨[], ds, rfl, by simp, rfl, h⟩

/-- Every token stands in front of those behind it. -/
theorem pairwise_before (h : Spells p cs ts) (hl : ∀ t ∈ ts, t.lexeme.Spelled) :
    (∀ t ∈ ts, t.position = p ∨ p.Before t.position) ∧
      (ts.map (·.position)).Pairwise Position.Before := by
  induction h with
  | nil => exact ⟨by simp, .nil⟩
  | @blank p c _ _ _ _ ih =>
    obtain ⟨hp, hts⟩ := ih hl
    have hc := p.before_step c
    exact ⟨fun t ht => .inr ((hp t ht).elim (fun he => he ▸ hc) hc.trans), hts⟩
  | @token p l _ us _ ih =>
    obtain ⟨hlt, hlts⟩ := List.forall_mem_cons.1 hl
    obtain ⟨hp, hts⟩ := ih hlts
    obtain ⟨c, s, hs, -⟩ := hlt
    have hl : p.Before (p.after l.spelling) :=
      p.before_after (hs ▸ List.cons_ne_nil c s : (Token.place l p).lexeme.spelling ≠ [])
    have hus : ∀ t ∈ us, p.Before t.position := fun t ht =>
      (hp t ht).elim (fun he => he ▸ hl) hl.trans
    exact ⟨List.forall_mem_cons.2 ⟨.inl rfl, fun t ht => .inr (hus t ht)⟩,
      List.pairwise_cons.2 ⟨List.forall_mem_map.2 hus, hts⟩⟩

end Spells

/-- No two tokens of a text stand at one place. -/
theorem nodup_positions_of_tokenize {cs : List Char} {ts : List Token}
    (h : tokenize cs = .ok ts) : (ts.map (·.position)).Nodup :=
  ((spells_of_tokenizeFrom h).pairwise_before (spelled_of_tokenizeFrom h)).2.imp (·.ne)

/-- A text put together from tokens, each behind a gap. -/
def spelledOut (pieces : List (List Char × Token)) : List Char :=
  pieces.flatMap fun p => p.1 ++ p.2.lexeme.spelling

/-- Tokens, each behind a gap, that stand where they say if they come behind a text. -/
def Placed (done : List Char) (pieces : List (List Char × Token)) : Prop :=
  ∀ before gap t behind, pieces = before ++ (gap, t) :: behind →
    t.position = .behind (done ++ spelledOut before ++ gap) ∧
      t.endLine = (Position.behind (done ++ spelledOut before ++ gap ++
        t.lexeme.spelling.dropLast)).line

/-- A text that is spelled by tokens is put together from them and gaps. -/
theorem exists_pieces_of_spells {done cs : List Char} {ts : List Token}
    (h : Spells (.behind done) cs ts) (hl : ∀ t ∈ ts, t.lexeme.Spelled) :
    ∃ pieces last, pieces.map (·.2) = ts ∧ cs = spelledOut pieces ++ last ∧
      (∀ p ∈ pieces, ∀ c ∈ p.1, isBlank c = true) ∧ (∀ c ∈ last, isBlank c = true) ∧
      Placed done pieces := by
  induction ts generalizing done cs with
  | nil => exact ⟨[], cs, rfl, rfl, by simp, h.isBlank_of_nil, by simp [Placed]⟩
  | cons t ts ih =>
    obtain ⟨hlt, hlts⟩ := List.forall_mem_cons.1 hl
    obtain ⟨gap, ds, rfl, hgap, ht, hs⟩ := h.uncons
    rw [Position.after_behind] at ht hs
    obtain ⟨pieces, last, rfl, rfl, hgaps, hlast, hplaced⟩ := ih hs hlts
    refine ⟨(gap, t) :: pieces, last, rfl, by simp [spelledOut],
      List.forall_mem_cons.2 ⟨hgap, hgaps⟩, hlast, ?_⟩
    intro before gap' t' behind he
    cases before with
    | nil =>
      cases he
      refine ⟨?_, ?_⟩
      · rw [ht]
        simp [spelledOut]
      · rw [← line_behind_spelling hlt, ht]
        simp [spelledOut, Token.place, Position.after_behind]
    | cons p before =>
      rw [List.cons_append, List.cons.injEq] at he
      obtain ⟨rfl, he⟩ := he
      simpa [spelledOut] using hplaced before gap' t' behind he

/-- A text is its tokens and the blanks between them. Each token stands where it says, and strings
and numbers have the values that they spell. -/
theorem tokenize_lossless {cs : List Char} {ts : List Token} (h : tokenize cs = .ok ts) :
    (∃ pieces last, pieces.map (·.2) = ts ∧ cs = spelledOut pieces ++ last ∧
      (∀ p ∈ pieces, ∀ c ∈ p.1, isBlank c = true) ∧ (∀ c ∈ last, isBlank c = true) ∧
      ∀ before gap t behind, pieces = before ++ (gap, t) :: behind →
        t.position = .behind (spelledOut before ++ gap) ∧
          t.endLine = (Position.behind (spelledOut before ++ gap ++
            t.lexeme.spelling.dropLast)).line) ∧
      ∀ t ∈ ts, t.lexeme.Denotes := by
  have hspelled := spelled_of_tokenizeFrom h
  have hspells : Spells (.behind []) cs ts := spells_of_tokenizeFrom h
  refine ⟨exists_pieces_of_spells hspells hspelled, fun t ht => ?_⟩
  obtain ⟨c, s, -, hscan⟩ := hspelled t ht
  exact denotes_of_scan hscan

/-- A block comment over two lines, a string with a tabulator and a quote in it, a blank that takes
two bytes, and a negative number in front of a comment that ends in blanks. -/
theorem tokenize_lossless_of_mixed_text :
    ∃ cs ts, tokenize cs = .ok ts ∧ ts.length = 5 ∧
      (∃ pieces last, pieces.map (·.2) = ts ∧ cs = spelledOut pieces ++ last ∧
        (∀ p ∈ pieces, ∀ c ∈ p.1, isBlank c = true) ∧ (∀ c ∈ last, isBlank c = true) ∧
        ∀ before gap t behind, pieces = before ++ (gap, t) :: behind →
          t.position = .behind (spelledOut before ++ gap) ∧
            t.endLine = (Position.behind (spelledOut before ++ gap ++
              t.lexeme.spelling.dropLast)).line) ∧
        ∀ t ∈ ts, t.lexeme.Denotes := by
  have h : tokenize "/* a\n */ \"x\\t\\\"\" ,\u00a0-12// end  \n".toList = .ok
      [⟨.blockComment "/* a\n */", ⟨1, 1⟩, 2⟩, ⟨.quoted "x\t\"" "\"x\\t\\\"\"", ⟨2, 5⟩, 2⟩,
        ⟨.mark .comma, ⟨2, 13⟩, 2⟩, ⟨.number (-12) "-12", ⟨2, 15⟩, 2⟩,
        ⟨.lineComment "// end", ⟨2, 18⟩, 2⟩] := by decide +kernel
  exact ⟨_, _, h, rfl, tokenize_lossless h⟩

end KeyRemap
