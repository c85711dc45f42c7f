import KeyRemap.Proofs.Layout.Lexemes
import KeyRemap.Proofs.Script.Lexemes

/-!
# A layout says what the text said

A text that is read is read as the same document when it is laid out (`parse_format`). A layout
takes a text apart into groups, and each clause of the grammar is a group: it ends where its words
end, whatever comments stand among them (`takeGroup_clause`). The words of a group are written in
their order, a list perhaps with a comma behind it, and its comments behind it, where they wait for
the same statement, header or end as before.
-/
namespace KeyRemap.Layout

/-- How lexemes end a group inside so many parentheses and brackets, if it ends with the last of
them and not before. -/
def endsAt (depth : Nat) : List Lexeme → Option Ending
  | [] => none
  | l :: ls =>
    if l = .mark .closeBrace then none
    else
      match ending? depth l with
      | some e => if ls = [] then some e else none
      | none => endsAt (nesting depth l) ls

theorem ending?_comment {l : Lexeme} (h : l.isComment = true) (depth : Nat) :
    ending? depth l = none := by
  cases l <;> simp_all [ending?, Lexeme.isComment]

theorem nesting_comment {l : Lexeme} (h : l.isComment = true) (depth : Nat) :
    nesting depth l = depth := by
  cases l <;> simp_all [nesting, Lexeme.isComment]

theorem ending?_ne_incomplete {depth : Nat} {l : Lexeme} {e : Ending}
    (h : ending? depth l = some e) : e ≠ .incomplete := by
  unfold ending? at h
  split at h
  · split at h <;> simp_all
    rw [← h]
    simp
  · cases h; simp
  · cases h; simp
  · cases h

theorem endsAt_ne_incomplete {depth : Nat} {ls : List Lexeme} {e : Ending}
    (h : endsAt depth ls = some e) : e ≠ .incomplete := by
  fun_induction endsAt depth ls with
  | case1 | case2 | case4 => cases h
  | case3 depth l hb e' he => cases h; exact ending?_ne_incomplete he
  | case5 depth l ls hb he ih => exact ih h

theorem gather_ending {depth : Nat} {t : Token} {e : Ending} (hb : t.lexeme ≠ .mark .closeBrace)
    (h : ending? depth t.lexeme = some e) (ts : List Token) :
    gather depth (t :: ts) = ([t], e, ts) := by
  simp [gather, hb, h]

theorem gather_nesting {depth : Nat} {t : Token} (hb : t.lexeme ≠ .mark .closeBrace)
    (h : ending? depth t.lexeme = none) {ts taken rest : List Token} {e : Ending}
    (hg : gather (nesting depth t.lexeme) ts = (taken, e, rest)) :
    gather depth (t :: ts) = (t :: taken, e, rest) := by
  simp [gather, hb, h, hg]

/-- A group goes on up to the word that ends it; comments do not end it. -/
theorem gather_append {depth : Nat} {ts : List Token} {e : Ending}
    (h : endsAt depth (wordsOf ts) = some e) (he : EndsInWord ts) (rest : List Token) :
    gather depth (ts ++ rest) = (ts, e, rest) := by
  induction ts generalizing depth with
  | nil => cases h
  | cons t ts ih =>
    cases ht : t.isComment with
    | true =>
      have hb : t.lexeme ≠ .mark .closeBrace := by
        rintro hb
        simp [isComment_of_lexeme hb] at ht
      rw [wordsOf_comment ht, ← nesting_comment ht depth] at h
      exact gather_nesting hb (ending?_comment ht depth) (ih h he.tail)
    | false =>
      rw [wordsOf_word ht, endsAt] at h
      split at h
      · cases h
      · rename_i hb
        split at h
        · rename_i e' hending
          split at h
          · -- no word is left, so no token is: they end in a word
            rename_i hn
            obtain rfl := he.tail.eq_nil hn
            cases h
            exact gather_ending hb hending rest
          · cases h
        · rename_i hending
          exact gather_nesting hb hending (ih h he.tail)

/-- A clause is a group of its own, with the comments beside its last word. -/
theorem takeGroup_clause_eq {first : Token} {ts : List Token} {e : Ending}
    (hf : ending? 0 first.lexeme = none)
    (h : endsAt (nesting 0 first.lexeme) (wordsOf ts) = some e) (he : EndsInWord ts)
    (rest : List Token) : takeGroup first (ts ++ rest) =
      (⟨first :: ts, e, (splitBeside (lastTokenLine (first :: ts)) rest).1⟩,
        (splitBeside (lastTokenLine (first :: ts)) rest).2) := by
  simp only [takeGroup, hf, gather_append h he rest, if_neg (endsAt_ne_incomplete h)]

theorem takeGroup_clause {first : Token} {ts : List Token} {e : Ending}
    (hf : ending? 0 first.lexeme = none)
    (h : endsAt (nesting 0 first.lexeme) (wordsOf ts) = some e) (he : EndsInWord ts)
    (rest : List Token) : ∃ beside rest', beside ++ rest' = rest ∧
      (∀ t ∈ beside, t.isComment = true) ∧
      takeGroup first (ts ++ rest) = (⟨first :: ts, e, beside⟩, rest') :=
  ⟨_, _, splitBeside_append _ rest, isComment_of_mem_splitBeside,
    takeGroup_clause_eq hf h he rest⟩

/-- So is a closing brace. -/
theorem takeGroup_brace_eq {brace : Token} (hb : brace.lexeme = .mark .closeBrace)
    (rest : List Token) : takeGroup brace rest =
      (⟨[brace], .closes, (splitBeside (lastTokenLine [brace]) rest).1⟩,
        (splitBeside (lastTokenLine [brace]) rest).2) := by
  simp [takeGroup, hb, ending?]

theorem takeGroup_brace {brace : Token} (hb : brace.lexeme = .mark .closeBrace)
    (rest : List Token) : ∃ beside rest', beside ++ rest' = rest ∧
      (∀ t ∈ beside, t.isComment = true) ∧
      takeGroup brace rest = (⟨[brace], .closes, beside⟩, rest') :=
  ⟨_, _, splitBeside_append _ rest, isComment_of_mem_splitBeside, takeGroup_brace_eq hb rest⟩

variable (layout : Layout)

/-- The lexemes of tokens as they are laid out at a level. -/
def lexemesAt (level : Nat) (ts : List Token) : List Lexeme :=
  layout.piecesLexemes level (pieces ts)

@[simp] theorem lexemesAt_nil (level : Nat) : layout.lexemesAt level [] = [] := by
  simp [lexemesAt, pieces, piecesLexemes]

theorem lexemesAt_comment {t : Token} (h : t.isComment = true) (level : Nat) (ts : List Token) :
    layout.lexemesAt level (t :: ts) = t.lexeme :: layout.lexemesAt level ts := by
  rw [lexemesAt, pieces, if_pos h]
  simp [piecesLexemes, Piece.closes, Piece.opens, pieceLexemes, lexemesAt]

theorem lexemesAt_comments {cs : List Token} (h : ∀ c ∈ cs, c.isComment = true) (level : Nat)
    (ts : List Token) :
    layout.lexemesAt level (cs ++ ts) = cs.map (·.lexeme) ++ layout.lexemesAt level ts := by
  induction cs with
  | nil => rfl
  | cons c cs ih =>
    obtain ⟨hc, hcs⟩ := List.forall_mem_cons.1 h
    rw [List.cons_append, lexemesAt_comment layout hc, ih hcs]
    rfl

/-- A clause is laid out as its words and then the comments among them. -/
theorem lexemesAt_clause {first : Token} {ts : List Token} {e : Ending}
    (hf : first.isComment = false) (hn : ending? 0 first.lexeme = none)
    (h : endsAt (nesting 0 first.lexeme) (wordsOf ts) = some e) (he : EndsInWord ts)
    (hc : e ≠ .closes) (level : Nat) (rest : List Token) :
    layout.lexemesAt level (first :: ts ++ rest) =
      layout.groupLexemes level (wordsOf (first :: ts)) ++ (commentTokens ts).map (·.lexeme) ++
        layout.lexemesAt (if e = .opens then level + 1 else level) rest := by
  obtain ⟨beside, rest', rfl, hbeside, hg⟩ := takeGroup_clause hn h he rest
  rw [lexemesAt_comments layout hbeside, List.cons_append, lexemesAt, pieces,
    if_neg (by simp [hf]), hg]
  simp [piecesLexemes, Piece.closes, Piece.opens, pieceLexemes, lexemesAt, hc, Group.tokens,
    Group.inner, commentTokens, wordsOf, wordTokens, hf]

theorem lexemesAt_brace {brace : Token} (hb : brace.lexeme = .mark .closeBrace) (level : Nat)
    (rest : List Token) : layout.lexemesAt level (brace :: rest) =
      .mark .closeBrace :: layout.lexemesAt (level - 1) rest := by
  obtain ⟨beside, rest', rfl, hbeside, hg⟩ := takeGroup_brace hb rest
  rw [lexemesAt_comments layout hbeside, lexemesAt, pieces,
    if_neg (by simp [isComment_of_lexeme hb]), hg]
  simp [piecesLexemes, Piece.closes, Piece.opens, pieceLexemes, lexemesAt, Group.tokens,
    Group.inner, isComment_of_lexeme hb, hb, groupLexemes, splitList?, trimCommas]

theorem endsAt_keys {ls : List Lexeme} {keys : List String} (h : Grammar.Keys ls keys) (depth : Nat)
    (ms : List Lexeme) : endsAt depth (ls ++ ms) = endsAt depth ms := by
  induction h with
  | one key raw => simp [endsAt, ending?, nesting]
  | more key raw h ih => simpa [endsAt, ending?, nesting] using ih

/-- A statement ends with its semicolon. -/
theorem endsAt_statement {l : Lexeme} {ls : List Lexeme} {m : Mapping}
    (h : Grammar.Statement (l :: ls) m) :
    ending? 0 l = none ∧ endsAt (nesting 0 l) ls = some .statement := by
  generalize hw : l :: ls = ws at h
  obtain ⟨h⟩ := h
  cases h with
  | sequence source a hk hc =>
    obtain ⟨rfl, rfl⟩ := List.cons.inj hw
    rcases hc with rfl | rfl <;>
      simp [endsAt, ending?, nesting, endsAt_keys hk]
  | _ =>
    obtain ⟨rfl, rfl⟩ := List.cons.inj hw
    simp [endsAt, ending?, nesting]

/-- A header ends with its brace. -/
theorem endsAt_header {word name : String} {l : Lexeme} {ls : List Lexeme}
    (h : Grammar.Header word (l :: ls) name) :
    ending? 0 l = none ∧ endsAt (nesting 0 l) ls = some .opens := by
  generalize hw : l :: ls = ws at h
  obtain ⟨name, raw⟩ := h
  obtain ⟨rfl, rfl⟩ := List.cons.inj hw
  simp [endsAt, ending?]

theorem groupLexemes_header {word name : String} {ls : List Lexeme}
    (h : Grammar.Header word ls name) (level : Nat) : layout.groupLexemes level ls = ls := by
  obtain ⟨name, raw⟩ := h
  simp [groupLexemes, splitList?, trimCommas]

theorem trimCommas_keys {ls : List Lexeme} {keys : List String} (h : Grammar.Keys ls keys)
    (ms : List Lexeme) : trimCommas (ls ++ ms) = ls ++ trimCommas ms := by
  induction h with
  | one key raw => simp [trimCommas]
  | more key raw h ih =>
    obtain ⟨k, r, ns, more, rfl, -⟩ := h.exists_cons
    simp [trimCommas] at ih ⊢
    exact ih

/-- The members of a list are its keys. -/
theorem flatMap_members {ls : List Lexeme} {keys : List String} (h : Grammar.Keys ls keys)
    {comma : List Lexeme} (hc : comma = [] ∨ comma = [.mark .comma]) :
    (membersAfter [] (ls ++ comma)).flatMap (fun m => trimCommas m ++ [.mark .comma]) =
      ls ++ [.mark .comma] := by
  induction h with
  | one key raw => rcases hc with rfl | rfl <;> simp [membersAfter, trimCommas]
  | more key raw h ih => simpa [membersAfter, trimCommas] using ih

/-- A statement with a list that has members is parted at its brackets. -/
theorem splitList?_eq {head members tail : List Lexeme} (hh : .mark .openBracket ∉ head)
    (hm : members ≠ []) (ht : .mark .closeBracket ∉ tail) :
    splitList? (head ++ .mark .openBracket :: (members ++ .mark .closeBracket :: tail)) =
      some (head ++ [.mark .openBracket], members, .mark .closeBracket :: tail) := by
  have hhead : ∀ l ∈ head, decide (l ≠ .mark .openBracket) = true := fun l hl =>
    decide_eq_true (ne_of_mem_of_not_mem hl hh)
  have htail : ∀ l ∈ tail.reverse, decide (l ≠ .mark .closeBracket) = true := fun l hl =>
    decide_eq_true (ne_of_mem_of_not_mem (List.mem_reverse.1 hl) ht)
  obtain ⟨l, ls, hls⟩ := List.exists_cons_of_ne_nil (List.reverse_ne_nil_iff.2 hm)
  have hmembers : members = (l :: ls).reverse := by rw [← hls, List.reverse_reverse]
  have hback : (members ++ .mark .closeBracket :: tail).reverse =
      tail.reverse ++ .mark .closeBracket :: l :: ls := by
    simp [hmembers]
  unfold splitList?
  rw [List.dropWhile_append_of_pos hhead, List.takeWhile_append_of_pos hhead]
  simp only [List.dropWhile_cons, List.takeWhile_cons, ne_eq, not_true_eq_false, decide_false,
    Bool.false_eq_true, if_false, hback, List.append_nil]
  rw [List.dropWhile_append_of_pos htail, List.takeWhile_append_of_pos htail]
  simp [hmembers]

theorem splitList?_keys {ls : List Lexeme} {keys : List String} (hk : Grammar.Keys ls keys)
    (comma : List Lexeme) (source a : String) :
    splitList? ([.name "macro", .mark .openParen, .quoted source a, .mark .comma,
        .mark .openBracket] ++ ls ++ comma ++ [.mark .closeBracket, .mark .closeParen] ++
        [.mark .semicolon]) =
      some ([.name "macro", .mark .openParen, .quoted source a, .mark .comma, .mark .openBracket],
        ls ++ comma, [.mark .closeBracket, .mark .closeParen, .mark .semicolon]) := by
  have hhead : .mark .openBracket ∉
      [Lexeme.name "macro", .mark .openParen, .quoted source a, .mark .comma] := by simp
  have htail : .mark .closeBracket ∉ [Lexeme.mark .closeParen, .mark .semicolon] := by simp
  have hparts := splitList?_eq hhead (List.append_ne_nil_of_left_ne_nil hk.ne_nil comma) htail
  simpa using hparts

/-- A statement with keys is laid out as it is, with a comma behind the keys or without: on one
line the comma goes, on lines of its own the list gets one. -/
theorem exists_groupLexemes_keys {ls : List Lexeme} {keys : List String} (hk : Grammar.Keys ls keys)
    {comma : List Lexeme} (hc : comma = [] ∨ comma = [.mark .comma]) (level : Nat)
    (source a : String) : ∃ comma', (comma' = [] ∨ comma' = [.mark .comma]) ∧
      layout.groupLexemes level ([.name "macro", .mark .openParen, .quoted source a, .mark .comma,
          .mark .openBracket] ++ ls ++ comma ++ [.mark .closeBracket, .mark .closeParen] ++
          [.mark .semicolon]) =
        [.name "macro", .mark .openParen, .quoted source a, .mark .comma, .mark .openBracket] ++
          ls ++ comma' ++ [.mark .closeBracket, .mark .closeParen] ++ [.mark .semicolon] := by
  have htrim : trimCommas (comma ++ [.mark .closeBracket, .mark .closeParen, .mark .semicolon]) =
      [.mark .closeBracket, .mark .closeParen, .mark .semicolon] := by
    rcases hc with rfl | rfl <;> simp [trimCommas]
  simp only [groupLexemes, splitList?_keys hk comma, flatMap_members hk hc]
  split
  · exact ⟨[], .inl rfl, by simp [trimCommas, htrim, trimCommas_keys hk]⟩
  · exact ⟨_, .inr rfl, by simp [trimCommas]⟩

/-- A statement is laid out as one. -/
theorem statement_groupLexemes {ls : List Lexeme} {m : Mapping} (h : Grammar.Statement ls m)
    (level : Nat) : Grammar.Statement (layout.groupLexemes level ls) m := by
  obtain ⟨h⟩ := h
  cases h with
  | map source target a b =>
    have := Grammar.Statement.mk (.map source target a b)
    simpa [groupLexemes, splitList?, trimCommas] using this
  | tapHold source tap hold timeout a b c d =>
    have := Grammar.Statement.mk (.tapHold source tap hold timeout a b c d)
    simpa [groupLexemes, splitList?, trimCommas] using this
  | layerSwitch source layer a b =>
    have := Grammar.Statement.mk (.layerSwitch source layer a b)
    simpa [groupLexemes, splitList?, trimCommas] using this
  | sequence source a hk hc =>
    obtain ⟨comma', hc', he⟩ := layout.exists_groupLexemes_keys hk hc level source a
    rw [he]
    exact .mk (.sequence source a hk hc')

open Script

/-- The comments of a clause wait behind it as they waited inside. -/
theorem says_commentTokens {place : Place} {ts us : List Token} {d : Document}
    (h : Says place (remarksOf ts) us d) :
    Says place [] (loose ((commentTokens ts).map (·.lexeme)) ++ us) d := by
  have hc : ∀ l ∈ (commentTokens ts).map (·.lexeme), l.isComment = true := by
    simp only [List.mem_map, commentTokens, List.mem_filter]
    rintro _ ⟨t, ⟨-, ht⟩, rfl⟩
    exact ht
  refine .comments (by simpa [loose, Token.isComment] using hc) ?_
  rwa [remarksOf_eq_filter, lexeme_loose, List.filter_eq_self.2 hc, List.map_map, List.nil_append]

theorem lexemesAt_statement {first : Token} {ts : List Token} {m : Mapping}
    (hf : first.isComment = false) (he : EndsInWord ts)
    (hm : Grammar.Statement (wordsOf (first :: ts)) m) (level : Nat) (rest : List Token) :
    layout.lexemesAt level (first :: ts ++ rest) =
      layout.groupLexemes level (wordsOf (first :: ts)) ++ (commentTokens ts).map (·.lexeme) ++
        layout.lexemesAt level rest := by
  rw [wordsOf_word hf] at hm
  obtain ⟨hn, hends⟩ := endsAt_statement hm
  rw [lexemesAt_clause layout hf hn hends he (by simp)]
  rfl

theorem lexemesAt_header {first : Token} {ts : List Token} {word name : String}
    (hf : first.isComment = false) (he : EndsInWord ts)
    (hh : Grammar.Header word (wordsOf (first :: ts)) name) (level : Nat) (rest : List Token) :
    layout.lexemesAt level (first :: ts ++ rest) =
      wordsOf (first :: ts) ++ (commentTokens ts).map (·.lexeme) ++
        layout.lexemesAt (level + 1) rest := by
  have hg := groupLexemes_header layout hh level
  rw [wordsOf_word hf] at hh
  obtain ⟨hn, hends⟩ := endsAt_header hh
  rw [lexemesAt_clause layout hf hn hends he (by simp), hg]
  rfl

/-- A block is laid out as its header, the comments in it, its body and its brace. -/
theorem lexemesAt_block {first brace : Token} {ts us : List Token} {word name : String}
    (hf : first.isComment = false) (he : EndsInWord ts)
    (hh : Grammar.Header word (wordsOf (first :: ts)) name)
    (hc : brace.lexeme = .mark .closeBrace) {level : Nat} {ms ls : List Lexeme}
    {rest : List Token}
    (hb : layout.lexemesAt (level + 1) (us ++ brace :: rest) =
      ms ++ layout.lexemesAt (level + 1) (brace :: rest))
    (hl : layout.lexemesAt level rest = ls) :
    layout.lexemesAt level (first :: ts ++ us ++ brace :: rest) =
      wordsOf (first :: ts) ++ ((commentTokens ts).map (·.lexeme) ++ ms) ++
        [.mark .closeBrace] ++ ls := by
  rw [List.append_assoc, lexemesAt_header layout hf he hh, hb, lexemesAt_brace layout hc,
    Nat.add_sub_cancel, hl]
  simp

/-- What tokens say is said by their lexemes as they are laid out, whatever stands behind them. -/
theorem exists_says_lexemesAt {place : Place} {pending : List String} {ts : List Token}
    {d : Document} (h : Says place pending ts d) (level : Nat) (rest : List Token) :
    ∃ ls, layout.lexemesAt level (ts ++ rest) = ls ++ layout.lexemesAt level rest ∧
      Says place pending (loose ls) d.unplaced := by
  induction h generalizing level rest with
  | done place pending => exact ⟨[], rfl, .done place pending⟩
  | @comment place pending t ts d ht _ ih =>
    obtain ⟨ls, hl, hs⟩ := ih level rest
    exact ⟨t.lexeme :: ls, by rw [List.cons_append, lexemesAt_comment layout ht, hl]; rfl,
      .comment ht hs⟩
  | @statement place pending first ts us m d hf he hm _ ih =>
    obtain ⟨ls, hl, hs⟩ := ih level rest
    refine ⟨layout.groupLexemes level (wordsOf (first :: ts)) ++
      ((commentTokens ts).map (·.lexeme) ++ ls), ?_, ?_⟩
    · rw [List.append_assoc, lexemesAt_statement layout hf he hm, hl]
      simp only [List.append_assoc]
    · rw [loose_append, loose_append]
      exact says_statement (statement_groupLexemes layout hm level) (says_commentTokens hs) pending
  | @layer place pending first brace ts us vs name b d hn hf he hh _ hc _ ihb ih =>
    obtain ⟨ms, hm, hb⟩ := ihb (level + 1) (brace :: (vs ++ rest))
    obtain ⟨ls, hl, hs⟩ := ih level rest
    refine ⟨wordsOf (first :: ts) ++ ((commentTokens ts).map (·.lexeme) ++ ms) ++
      [.mark .closeBrace] ++ ls, ?_, ?_⟩
    · have ha : first :: ts ++ us ++ brace :: vs ++ rest =
          first :: ts ++ us ++ brace :: (vs ++ rest) := by simp
      rw [ha, lexemesAt_block layout hf he hh hc hm hl]
      simp only [List.append_assoc]
    · simp only [loose_append]
      exact says_layer hn hh (says_commentTokens hb) hs pending
  | @device pending first brace ts us vs pattern b d hf he hh _ hc _ ihb ih =>
    obtain ⟨ms, hm, hb⟩ := ihb (level + 1) (brace :: (vs ++ rest))
    obtain ⟨ls, hl, hs⟩ := ih level rest
    refine ⟨wordsOf (first :: ts) ++ ((commentTokens ts).map (·.lexeme) ++ ms) ++
      [.mark .closeBrace] ++ ls, ?_, ?_⟩
    · have ha : first :: ts ++ us ++ brace :: vs ++ rest =
          first :: ts ++ us ++ brace :: (vs ++ rest) := by simp
      rw [ha, lexemesAt_block layout hf he hh hc hm hl]
      simp only [List.append_assoc]
    · simp only [loose_append]
      exact says_device hh (says_commentTokens hb) hs pending

/-- What the tokens of a text say is said by those of the text laid out. -/
theorem exists_says_format {text : List Char} {ts : List Token} {d : Document}
    (ht : tokenize text = .ok ts) (hs : Says .topLevel [] ts d) :
    ∃ d', parse (layout.format text) = .ok d' ∧ d'.Agrees d := by
  obtain ⟨us, hu, hl⟩ := layout.tokenize_format ht
  obtain ⟨ls, he, hs⟩ := exists_says_lexemesAt layout hs 0 []
  rw [List.append_nil, lexemesAt_nil, List.append_nil] at he
  have hm : us.map (·.lexeme) = (loose ls).map (·.lexeme) := by
    rw [hl, lexeme_loose, ← he]
    rfl
  obtain ⟨d', hd, ha⟩ := hs.congr hm
  exact ⟨d', parse_eq_ok_iff.2 ⟨us, hu, hd⟩, ha.trans d.agrees_unplaced⟩

/-- A text that is read is read as the same document when it is laid out, its comments with the
same statements, headers and ends. -/
theorem parse_format {text : List Char} {d : Document} (h : parse text = .ok d) :
    ∃ d', parse (layout.format text) = .ok d' ∧ d'.Agrees d := by
  obtain ⟨ts, ht, hs⟩ := parse_eq_ok_iff.1 h
  exact layout.exists_says_format ht hs

/-- A list that is put on lines of its own, with a comment moved out of it. -/
theorem parse_format_macro :
    ∃ d', parse (format { maxLineLength := 8 } "macro(\"A\", // b\n[\"B\"]);".toList) = .ok d' ∧
      d'.Agrees { entries := [{ mapping := .sequence "A" ["B"] }], trailing := ["// b"] } := by
  have hp : parse "macro(\"A\", // b\n[\"B\"]);".toList =
      .ok { entries := [⟨.sequence "A" ["B"], [], ⟨1, 1⟩⟩], trailing := ["// b"] } := by
    decide +kernel
  obtain ⟨d', hd, ha⟩ := parse_format { maxLineLength := 8 } hp
  exact ⟨d', hd, ha⟩

end KeyRemap.Layout
