import KeyRemap.Proofs.Token.Stretch
import KeyRemap.Script.Write

/-!
# Words of a written script

A string is written as a lexeme with that value (`spelled_quoted`), an integer in the range of
timeouts as a number (`spelled_number`), and a comment, whatever its text, as lines that consist of
comments (`linesYield_commentLines`): of itself, if it has the form of one.
-/
namespace KeyRemap.Script

open Text

/-- The string as a lexeme. -/
def quoted (s : String) : Lexeme := .quoted s (String.ofList (quote s))

/-- The integer as a lexeme. -/
def number (i : Int) : Lexeme := .number i (String.ofList (Decimal.ofInt i))

@[simp] theorem spelling_quoted (s : String) : (quoted s).spelling = quote s := by
  simp [quoted, Lexeme.spelling]

@[simp] theorem spelling_number (i : Int) : (number i).spelling = Decimal.ofInt i := by
  simp [number, Lexeme.spelling]

theorem stringBody_escape {c : Char} {cs value raw rest : List Char}
    (h : stringBody cs = .ok (value, raw, rest)) :
    stringBody (escape c ++ cs) = .ok (c :: value, escape c ++ raw, rest) := by
  unfold escape
  split
  · simp [stringBody, unescape, h]
  · simp [stringBody, unescape, h]
  · simp [stringBody, unescape, h]
  · simp [stringBody, unescape, h]
  · rename_i hq hb hn ht
    rw [List.singleton_append, List.singleton_append, stringBody.eq_def]
    split <;> simp_all

theorem stringBody_quote (cs rest : List Char) :
    stringBody (cs.flatMap escape ++ '"' :: rest) = .ok (cs, cs.flatMap escape ++ ['"'], rest) := by
  induction cs with
  | nil => rfl
  | cons c cs ih => simpa using stringBody_escape (c := c) ih

/-- A string is read as its value. -/
theorem spelled_quoted (s : String) : (quoted s).Spelled := by
  refine ⟨'"', s.toList.flatMap escape ++ ['"'], by simp [quote], ?_⟩
  have h := stringBody_quote s.toList []
  simp [scan, Mark.ofChar?, scanString, h, quoted, quote]

theorem scan_of_isDigit {c : Char} (h : c.isDigit = true) (r : List Char) :
    scan c r = scanNumber false (c :: r) := by
  have hm : Mark.ofChar? c = none := by
    rw [Option.eq_none_iff_forall_ne_some]
    intro m hm
    have := isNamePart_of_isDigit h
    rw [Mark.ofChar?_eq_some hm, isNamePart_mark] at this
    cases this
  have hq : c ≠ '"' := by rintro rfl; cases h
  have hs : c ≠ '/' := by rintro rfl; cases h
  have hn : c ≠ '-' := by rintro rfl; cases h
  simp [scan, hm, hq, hs, hn, h]

theorem scanNumber_digits (negative : Bool) (n : Nat) {i : Int}
    (hi : i = if negative then -(n : Int) else n) (hf : fitsSigned i = true) :
    scanNumber negative (Decimal.digits n) =
      .ok (.number i (String.ofList ((if negative then ['-'] else []) ++ Decimal.digits n)),
        []) := by
  have hall : ∀ c ∈ Decimal.digits n, c.isDigit = true := fun c => Decimal.isDigit_of_mem_digits
  have ht : (Decimal.digits n).takeWhile Char.isDigit = Decimal.digits n :=
    List.takeWhile_eq_self_iff.2 hall
  have hd : (Decimal.digits n).dropWhile Char.isDigit = [] := List.dropWhile_eq_nil_iff.2 hall
  simp only [scanNumber, ht, hd, Decimal.value_digits, ← hi, hf, if_true]
  rw [if_neg (by simp [Decimal.digits_ne_nil])]

/-- An integer in the range of timeouts is read as its value. -/
theorem spelled_number {i : Int} (h : fitsSigned i = true) : (number i).Spelled := by
  cases i with
  | ofNat n =>
    obtain ⟨c, s, hc⟩ := List.exists_cons_of_ne_nil (Decimal.digits_ne_nil n)
    refine ⟨c, s, by simp [Decimal.ofInt, hc], ?_⟩
    have hd : c.isDigit = true := Decimal.isDigit_of_mem_digits (n := n) (by simp [hc])
    have hs := scanNumber_digits false n rfl h
    rw [hc] at hs
    rw [scan_of_isDigit hd, hs]
    simp [number, Decimal.ofInt, hc]
  | negSucc n =>
    refine ⟨'-', Decimal.digits (n + 1), by simp [Decimal.ofInt], ?_⟩
    have hs := scanNumber_digits true (n + 1) (i := .negSucc n) (by simp; omega) h
    simpa [scan, Mark.ofChar?, number, Decimal.ofInt] using hs

theorem spelled_name_form (f : Form) : (Lexeme.name f.name).Spelled := by
  cases f <;> exact ⟨_, _, rfl, rfl⟩

theorem spelled_name_layer : (Lexeme.name "layer").Spelled := ⟨_, _, rfl, rfl⟩

theorem spelled_name_device : (Lexeme.name "device").Spelled := ⟨_, _, rfl, rfl⟩

/-- The lexemes of a comment as it is written. -/
def commentLexemes (comment : String) : List Lexeme :=
  let cs := trimEnd comment.toList
  if isLineComment cs then [.lineComment (String.ofList cs)]
  else if isBlockComment cs then [.blockComment (String.ofList cs)]
  else (lines cs).map fun l => .lineComment (String.ofList (trimEnd (['/', '/', ' '] ++ trim l)))

/-- Two slashes and what is no line end are read as a line comment and blanks. -/
theorem scan_lineComment {r bs : List Char} (hn : '\n' ∉ '/' :: '/' :: r)
    (ht : trimEnd ('/' :: '/' :: r) ++ bs = '/' :: '/' :: r) (x : List Char) :
    scan '/' ('/' :: r ++ '\n' :: x) =
      .ok (.lineComment (String.ofList (trimEnd ('/' :: '/' :: r))), bs ++ '\n' :: x) := by
  have hw : ('/' :: '/' :: r ++ '\n' :: x).takeWhile (· != '\n') = '/' :: '/' :: r := by
    refine takeWhile_append_stop (fun c hc => ?_) (by simp)
    rw [bne_iff_ne]
    rintro rfl
    exact hn hc
  have hd : ('/' :: '/' :: r ++ '\n' :: x).drop (trimEnd ('/' :: '/' :: r)).length =
      bs ++ '\n' :: x := by
    conv_lhs => rw [← ht, List.append_assoc]
    rw [ht, List.drop_left]
  have hs : scanComment ('/' :: r ++ '\n' :: x) =
      .ok (.lineComment (String.ofList (trimEnd ('/' :: '/' :: r))), bs ++ '\n' :: x) := by
    rw [List.cons_append, scanComment]
    simp only [← List.cons_append, hw, hd]
  simpa [scan, Mark.ofChar?] using hs

theorem yields_lineComment {cs : List Char} (hp : ['/', '/'] <+: cs) (hn : '\n' ∉ cs)
    (x : List Char) : Yields cs [.lineComment (String.ofList (trimEnd cs))] ('\n' :: x) := by
  obtain ⟨r, rfl⟩ := hp
  simp only [List.cons_append, List.nil_append] at hn ⊢
  obtain ⟨bs, hb, ht⟩ := trimEnd_append_blanks ('/' :: '/' :: r)
  intro p
  obtain ⟨ts, hts, he⟩ := Yields.blanks hb ('\n' :: x) (p.after (trimEnd ('/' :: '/' :: r)))
  obtain rfl := List.map_eq_nil_iff.1 hts
  have hs := tokenizeFrom_scan (scan_lineComment hn ht x) p
  simp only [Lexeme.spelling, String.toList_ofList] at hs
  rw [← Position.after_append, ht] at he
  refine ⟨[Token.place _ p], rfl, hs.trans ?_⟩
  rw [he]
  cases tokenizeFrom (p.after ('/' :: '/' :: r)) ('\n' :: x) <;> rfl

theorem blockBody_append_close {body : List Char} (h : ¬ ['*', '/'] <:+: body) (x : List Char) :
    blockBody (body ++ '*' :: '/' :: x) = some (body ++ ['*', '/'], x) := by
  induction body with
  | nil => rfl
  | cons c body ih =>
    have hb : ¬ ['*', '/'] <:+: body := fun hi => h (hi.trans (List.suffix_cons c body).isInfix)
    rw [List.cons_append, blockBody.eq_def]
    split
    · rename_i he
      cases he
    · rename_i r he
      obtain ⟨hc, he⟩ := List.cons.inj he
      cases body with
      | nil => cases he
      | cons d body =>
        rw [hc, (List.cons.inj he).1] at h
        exact absurd (List.prefix_append ['*', '/'] body).isInfix h
    · rename_i d r _ he
      obtain ⟨rfl, rfl⟩ := List.cons.inj he
      rw [ih hb]
      rfl

/-- The form of a block comment. -/
theorem isBlockComment_iff {cs : List Char} : isBlockComment cs = true ↔
    ∃ body, cs = '/' :: '*' :: (body ++ ['*', '/']) ∧ ¬ ['*', '/'] <:+: body := by
  constructor
  · intro h
    simp only [isBlockComment, Bool.and_eq_true, List.isPrefixOf_iff_prefix,
      List.isSuffixOf_iff_suffix, decide_eq_true_eq, Bool.not_eq_true'] at h
    obtain ⟨⟨⟨⟨r, rfl⟩, t, ht⟩, hlen⟩, hocc⟩ := h
    obtain ⟨a, b, body, rfl⟩ : ∃ a b body, t = a :: b :: body := by
      match t with
      | [] | [_] => simp [← ht] at hlen
      | a :: b :: body => exact ⟨a, b, body, rfl⟩
    simp only [List.cons_append, List.nil_append, List.cons.injEq] at ht
    obtain ⟨rfl, rfl, rfl⟩ := ht
    refine ⟨body, rfl, fun hi => ?_⟩
    rw [← occursIn_iff] at hi
    simp [hi] at hocc
  · rintro ⟨body, rfl, h⟩
    rw [← occursIn_iff, Bool.not_eq_true] at h
    have hs : ['*', '/'] <:+ '/' :: '*' :: (body ++ ['*', '/']) :=
      List.suffix_append ('/' :: '*' :: body) ['*', '/']
    simp [isBlockComment, h, hs]

theorem spelled_blockComment {cs : List Char} (h : isBlockComment cs = true) :
    (Lexeme.blockComment (String.ofList cs)).Spelled := by
  obtain ⟨body, rfl, hb⟩ := isBlockComment_iff.1 h
  refine ⟨'/', '*' :: (body ++ ['*', '/']), by simp [Lexeme.spelling], ?_⟩
  simp [scan, Mark.ofChar?, scanComment, blockBody_append_close hb]

theorem notMem_newline_of_mem_lines {cs l : List Char} (h : l ∈ lines cs) : '\n' ∉ l := by
  fun_induction lines cs generalizing l with
  | case1 => cases h
  | case2 r ih =>
    rcases List.mem_cons.1 h with rfl | h
    · simp
    · exact ih h
  | case3 r ih =>
    rcases List.mem_cons.1 h with rfl | h
    · simp
    · exact ih h
  | case4 c r hn hr he ih =>
    obtain rfl := List.mem_singleton.1 h
    simpa using fun hc => hn hc.symm
  | case5 c r hn hr l' ls he ih =>
    rcases List.mem_cons.1 h with rfl | h
    · have := ih (l := l') (by rw [he]; exact List.mem_cons_self)
      simpa [this] using fun hc => hn hc.symm
    · exact ih (by rw [he]; exact List.mem_cons_of_mem l' h)

theorem mem_of_mem_trim {c : Char} {cs : List Char} (h : c ∈ trim cs) : c ∈ cs :=
  (List.dropWhile_suffix isBlank).subset (mem_of_mem_trimEnd h)

/-- The lines of a comment consist of comments. -/
theorem linesYield_commentLines (comment : String) :
    LinesYield (commentLines comment) (commentLexemes comment) := by
  unfold commentLines commentLexemes
  simp only [Bool.or_eq_true]
  generalize hcs : trimEnd comment.toList = cs
  split
  · rename_i h
    split
    · rename_i hl
      simp only [isLineComment, Bool.and_eq_true, List.isPrefixOf_iff_prefix, Bool.not_eq_true',
        List.contains_eq_mem, decide_eq_false_iff_not] at hl
      have ht : trimEnd cs = cs := by rw [← hcs, trimEnd_trimEnd]
      have hy := yields_lineComment hl.1 hl.2
      rw [ht] at hy
      exact .single hy
    · rename_i hl
      have hb : isBlockComment cs = true := by simpa [hl] using h
      rw [if_pos hb]
      refine .single fun x => ?_
      have hy := Yields.lexeme (spelled_blockComment hb) (Lexeme.endsBefore_newline _ x)
      simpa [Lexeme.spelling] using hy
  · rename_i h
    rw [not_or] at h
    rw [if_neg h.1, if_neg h.2, List.map_eq_flatMap, List.map_eq_flatMap]
    refine .flatMap fun l hl => .single (yields_lineComment ?_ ?_)
    · exact ⟨' ' :: trim l, rfl⟩
    · have hn : '\n' ∉ trim l := fun hm => notMem_newline_of_mem_lines hl (mem_of_mem_trim hm)
      simp [hn]

end KeyRemap.Script
