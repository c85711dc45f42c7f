import KeyRemap.Overview
import Mathlib.Data.List.Forall2

/-!
# What wildcards mean

A pattern covers an identifier that can be cut into as many pieces as the pattern has characters,
so that each character stands for its piece. The expression for a pattern is read back as what its
characters stand for, and the rows of marks tell where the pieces may end, so a pattern that can be
put to use describes the identifiers that it covers (`describes_exact`).
-/
namespace KeyRemap

namespace Expression

section Rows

variable {P Q : List Char → Prop} {before cs : List Char} {row : List Bool} {c : Char} {m : Bool}

/-- The marks of a row say which initial segments of a text have a property; `before` is what
stands in front of the row. -/
inductive Marks (P : List Char → Prop) : List Char → List Char → List Bool → Prop where
  | last {before : List Char} {m : Bool} (h : m = true ↔ P before) : Marks P before [] [m]
  | more {before cs : List Char} {c : Char} {m : Bool} {row : List Bool} (h : m = true ↔ P before)
      (hs : Marks P (before ++ [c]) cs row) : Marks P before (c :: cs) (m :: row)

namespace Marks

theorem congr (h : Marks P before cs row) (hPQ : ∀ t, P t ↔ Q t) : Marks Q before cs row := by
  induction h with
  | last hm => exact .last (hm.trans (hPQ _))
  | more hm _ ih => exact .more (hm.trans (hPQ _)) ih

/-- Every place is marked at first. -/
theorem start (before cs : List Char) :
    Marks (fun _ => True) before cs (true :: cs.map fun _ => true) := by
  induction cs generalizing before with
  | nil => exact .last (by simp)
  | cons c cs ih => exact .more (by simp) (ih _)

theorem mem_iff (h : Marks P before cs row) :
    true ∈ row ↔ ∃ t, t <+: cs ∧ P (before ++ t) := by
  induction h with
  | @last before m hm => simp [← hm, eq_comm]
  | @more before cs c m row hm _ ih =>
    rw [List.mem_cons, ih, eq_comm, hm]
    constructor
    · rintro (h | ⟨t, ht, hP⟩)
      · exact ⟨[], List.nil_prefix, by simpa using h⟩
      · exact ⟨c :: t, List.cons_prefix_cons.2 ⟨rfl, ht⟩, by simpa using hP⟩
    · rintro ⟨t, ht, hP⟩
      cases t with
      | nil => exact .inl (by simpa using hP)
      | cons d t =>
        obtain ⟨rfl, hts⟩ := List.cons_prefix_cons.1 ht
        exact .inr ⟨t, hts, by simpa using hP⟩

theorem none (h : Marks P before cs row) (hQ : ∀ t, ¬ Q (before ++ t)) :
    Marks Q before cs (row.map fun _ => false) := by
  induction h with
  | last _ => exact .last (by simpa using hQ [])
  | @more before cs c m row _ _ ih =>
    exact .more (by simpa using hQ []) (ih fun t => by simpa using hQ (c :: t))

theorem atStart (h : Marks P [] cs row) :
    Marks (fun t => t = [] ∧ P t) [] cs (atStart row) := by
  cases h with
  | last hm => exact .last (by simpa using hm)
  | more hm hs => exact .more (by simpa using hm) (hs.none fun t => by simp)

theorem atStop (h : Marks P before cs row) :
    Marks (fun t => t = before ++ cs ∧ P t) before cs (atStop row) := by
  induction h with
  | last hm => exact .last (by simpa using hm)
  | @more before cs c m row hm hs ih =>
    have hrow : Expression.atStop (m :: row) = false :: Expression.atStop row := by
      cases hs <;> rfl
    rw [hrow]
    exact .more (by simp) (ih.congr fun t => by simp)

/-- The marks behind a single character. The first of them is told apart, since it may be behind
what stands in front of the row. -/
theorem zipWith (h : Marks P before cs row) {test : Char → Bool}
    (hQ : ∀ t c, Q (t ++ [c]) ↔ P t ∧ test c = true) (hm : m = true ↔ Q before) :
    Marks Q before cs (m :: List.zipWith (fun c mark => mark && test c) cs row) := by
  induction h generalizing m with
  | last _ => exact .last hm
  | more hp _ ih => exact .more hm (ih (by simp [hQ, hp]))

theorem afterOne (h : Marks P [] cs row) (test : Char → Bool) :
    Marks (fun t => ∃ s c, t = s ++ [c] ∧ test c = true ∧ P s) [] cs (afterOne test cs row) := by
  refine h.zipWith (fun t c => ?_) (by simp)
  constructor
  · rintro ⟨s, d, hs, hd, hP⟩
    obtain ⟨rfl, hcd⟩ := List.append_inj' hs rfl
    cases hcd
    exact ⟨hP, hd⟩
  · rintro ⟨hP, hc⟩
    exact ⟨t, c, rfl, hc, hP⟩

/-- The marks behind a run, from the one that is behind `c` on. -/
theorem afterRun (h : Marks P (before ++ [c]) cs row)
    (hQ : ∀ t c, Q (t ++ [c]) ↔ P (t ++ [c]) ∨ Q t ∧ c ≠ '\n') (hm : m = true ↔ Q before) :
    Marks Q (before ++ [c]) cs (afterRun m (c :: cs) row) := by
  generalize hb : before ++ [c] = b at h
  induction h generalizing before c m with
  | @last b k hk =>
    subst hb
    exact .last (by simp [hQ, hk, hm])
  | @more b cs d k row hk _ ih =>
    subst hb
    have hhere : (k || m && c != '\n') = true ↔ Q (before ++ [c]) := by simp [hQ, hk, hm]
    exact .more hhere (ih hhere rfl)

/-- What is behind a run that may be longer by a character. -/
theorem exists_run_append_iff (P : List Char → Prop) (t : List Char) (c : Char) :
    (∃ s run, t ++ [c] = s ++ run ∧ '\n' ∉ run ∧ P s) ↔
      P (t ++ [c]) ∨ (∃ s run, t = s ++ run ∧ '\n' ∉ run ∧ P s) ∧ c ≠ '\n' := by
  constructor
  · rintro ⟨s, run, h, hrun, hP⟩
    rcases List.eq_nil_or_concat run with rfl | ⟨run, d, rfl⟩
    · exact .inl (by simpa [h] using hP)
    · rw [List.concat_eq_append, ← List.append_assoc] at h
      obtain ⟨rfl, hcd⟩ := List.append_inj' h rfl
      cases hcd
      simp only [List.concat_eq_append, List.mem_append, List.mem_singleton, not_or] at hrun
      exact .inr ⟨⟨s, run, rfl, hrun.1, hP⟩, Ne.symm hrun.2⟩
  · rintro (h | ⟨⟨s, run, rfl, hrun, hP⟩, hc⟩)
    · exact ⟨t ++ [c], [], by simp, by simp, h⟩
    · exact ⟨s, run ++ [c], by simp, by simp [hrun, Ne.symm hc], hP⟩

end Marks

end Rows

/-- Where a stretch of `text` may end that is described by one part more; `P` says where it may end
without it. -/
def Part.behind (text : List Char) (P : List Char → Prop) : Part → List Char → Prop
  | .start, t => t = [] ∧ P t
  | .stop, t => t = text ∧ P t
  | .any, t => ∃ s c, t = s ++ [c] ∧ c ≠ '\n' ∧ P s
  | .run, t => ∃ s run, t = s ++ run ∧ '\n' ∉ run ∧ P s
  | .char c, t => ∃ s, t = s ++ [c] ∧ P s

theorem marks_nextRow {P : List Char → Prop} {cs : List Char} {row : List Bool}
    (h : Marks P [] cs row) (part : Part) :
    Marks (part.behind cs P) [] cs (nextRow cs row part) := by
  cases part with
  | start => exact h.atStart
  | stop => exact h.atStop
  | any => exact (h.afterOne _).congr fun t => by simp [Part.behind]
  | char c => exact (h.afterOne _).congr fun t => by simp [Part.behind]
  | run =>
    have hfirst {m : Bool} (hm : m = true ↔ P []) : m = true ↔ Part.run.behind cs P [] := by
      simp [Part.behind, hm]
    cases h with
    | last hm => exact .last (hfirst hm)
    | more hm hs =>
      exact .more (hfirst hm)
        (hs.afterRun (Marks.exists_run_append_iff P) (hfirst hm))

/-- A stretch is described part by part. -/
theorem marks_foldl {P : List Char → Prop} {cs : List Char} {row : List Bool}
    (h : Marks P [] cs row) (parts : List Part) :
    Marks (parts.foldl (Part.behind cs) P) [] cs (parts.foldl (nextRow cs) row) := by
  induction parts generalizing P row with
  | nil => exact h
  | cons part parts ih => exact ih (marks_nextRow h part)

theorem isFound_iff (parts : List Part) (cs : List Char) : isFound parts cs = true ↔
    ∃ t, t <+: cs ∧ parts.foldl (Part.behind cs) (fun _ => True) t := by
  rw [isFound, List.contains_iff_mem]
  exact (marks_foldl (Marks.start [] cs) parts).mem_iff

/-- An escaped character is read as that character. -/
theorem parts?_escape (c : Char) (r : List Char) :
    parts? (escape c ++ r) = (parts? r).map (.char c :: ·) := by
  rw [escape]
  split
  · rename_i h
    simp [parts?, h]
  · rename_i h
    have hne : ∀ d, isMeta d = true → c ≠ d := fun d hd hcd => h (hcd ▸ hd)
    rw [List.singleton_append, parts?, if_neg h]
    · exact hne '^' (by decide)
    · exact hne '$' (by decide)
    · exact fun _ hc => (hne '.' (by decide) hc).elim
    · exact hne '.' (by decide)
    · exact fun _ _ hc => (hne '\\' (by decide) hc).elim

end Expression

namespace Wildcard

/-- Whether a character of a pattern stands for a piece of an identifier. -/
def StandsFor : Char → List Char → Prop
  | '*', piece => '\n' ∉ piece
  | '?', piece => ∃ c, c ≠ '\n' ∧ piece = [c]
  | p, piece => piece = [p]

/-- An identifier can be cut into pieces that the characters of a pattern stand for, in order. -/
def Covers (pattern id : List Char) : Prop :=
  ∃ pieces : List (List Char), List.Forall₂ StandsFor pattern pieces ∧ pieces.flatten = id

/-- What the expression for a character is read back as. -/
def partFor : Char → Expression.Part
  | '*' => .run
  | '?' => .any
  | c => .char c

theorem cases_wild {motive : Char → Prop} (star : motive '*') (mark : motive '?')
    (other : ∀ c, c ≠ '*' → c ≠ '?' → motive c) (p : Char) : motive p := by
  by_cases hs : p = '*'
  · exact hs ▸ star
  · by_cases hm : p = '?'
    · exact hm ▸ mark
    · exact other p hs hm

theorem behind_partFor (text : List Char) (P : List Char → Prop) (p : Char) (t : List Char) :
    (partFor p).behind text P t ↔ ∃ s piece, P s ∧ StandsFor p piece ∧ t = s ++ piece := by
  cases p using cases_wild with
  | star =>
    constructor
    · rintro ⟨s, run, rfl, hrun, hP⟩
      exact ⟨s, run, hP, hrun, rfl⟩
    · rintro ⟨s, run, hP, hrun, rfl⟩
      exact ⟨s, run, rfl, hrun, hP⟩
  | mark =>
    constructor
    · rintro ⟨s, c, rfl, hc, hP⟩
      exact ⟨s, [c], hP, ⟨c, hc, rfl⟩, rfl⟩
    · rintro ⟨s, -, hP, ⟨c, hc, rfl⟩, rfl⟩
      exact ⟨s, c, rfl, hc, hP⟩
  | other c hs hm => simp [partFor, StandsFor, Expression.Part.behind, and_comm]

/-- The characters of a pattern take one piece after the other. -/
theorem foldl_behind_iff (text : List Char) (P : List Char → Prop) (pattern t : List Char) :
    (pattern.map partFor).foldl (Expression.Part.behind text) P t ↔
      ∃ s pieces, P s ∧ List.Forall₂ StandsFor pattern pieces ∧ t = s ++ pieces.flatten := by
  induction pattern generalizing P with
  | nil => simp
  | cons p pattern ih =>
    rw [List.map_cons, List.foldl_cons, ih]
    constructor
    · rintro ⟨s, pieces, hs, hpieces, rfl⟩
      obtain ⟨s, piece, hP, hp, rfl⟩ := (behind_partFor text P p s).1 hs
      exact ⟨s, piece :: pieces, hP, .cons hp hpieces, by simp⟩
    · rintro ⟨s, pieces, hP, hpieces, rfl⟩
      cases hpieces with
      | @cons _ piece _ pieces hp hpieces =>
        exact ⟨s ++ piece, pieces, (behind_partFor text P p _).2 ⟨s, piece, hP, hp, rfl⟩, hpieces,
          by simp⟩

/-- The anchors hold a pattern to the whole of an identifier. -/
theorem isFound_iff_covers (pattern id : List Char) :
    Expression.isFound (.start :: pattern.map partFor ++ [.stop]) id = true ↔
      Covers pattern id := by
  simp only [Expression.isFound_iff, List.cons_append, List.foldl_cons, List.foldl_append,
    List.foldl_nil, Expression.Part.behind, foldl_behind_iff, Covers]
  constructor
  · rintro ⟨t, -, rfl, s, pieces, ⟨rfl, -⟩, hpieces, ht⟩
    exact ⟨pieces, hpieces, ht.symm⟩
  · rintro ⟨pieces, hpieces, rfl⟩
    exact ⟨_, List.prefix_rfl, rfl, [], pieces, ⟨rfl, trivial⟩, hpieces, rfl⟩

instance (pattern id : List Char) : Decidable (Covers pattern id) :=
  decidable_of_iff _ (isFound_iff_covers pattern id)

theorem parts?_expressionFor (p : Char) {r : List Char} (hr : r.head? ≠ some '*') :
    Expression.parts? (expressionFor p ++ r) = (Expression.parts? r).map (partFor p :: ·) := by
  cases p using cases_wild with
  | star => rfl
  | mark =>
    cases r with
    | nil => rfl
    | cons c r =>
      have hc : c ≠ '*' := fun h => hr (congrArg some h)
      show Expression.parts? ('.' :: c :: r) = _
      rw [Expression.parts?]
      · rfl
      · exact fun _ h => hc (List.cons.inj h).1
  | other c hs hm =>
    have hexpr : expressionFor p = Expression.escape p := by simp [expressionFor]
    have hpart : partFor p = .char p := by simp [partFor]
    rw [hexpr, hpart, Expression.parts?_escape]

/-- No expression for a character begins with what would repeat the one in front of it. -/
theorem head?_expressionFor (p : Char) (r : List Char) :
    (expressionFor p ++ r).head? ≠ some '*' := by
  cases p using cases_wild with
  | star => simp [expressionFor]
  | mark => simp [expressionFor]
  | other c hs hm =>
    simp only [expressionFor, Expression.escape]
    split <;> simp [hs]

/-- The expression for a pattern is read back as what its characters stand for: those that mean
something in an expression are escaped. -/
theorem parts?_expression (pattern : List Char) :
    Expression.parts? (expression pattern) = some (.start :: pattern.map partFor ++ [.stop]) := by
  have hrest : ∀ pattern : List Char,
      Expression.parts? (pattern.flatMap expressionFor ++ ['$']) =
        some (pattern.map partFor ++ [.stop]) := by
    intro pattern
    induction pattern with
    | nil => rfl
    | cons p pattern ih =>
      rw [List.flatMap_cons, List.append_assoc, parts?_expressionFor, ih]
      · rfl
      · cases pattern with
        | nil => simp
        | cons q pattern =>
          rw [List.flatMap_cons, List.append_assoc]
          exact head?_expressionFor q _
  rw [expression, List.cons_append, Expression.parts?, hrest]
  rfl

/-- Nothing keeps a pattern from being put to use: if it has a star or a question mark, its
expression can be put to use. -/
def Usable (pattern : String) : Prop :=
  pattern.toList.any isWild = true → (Expression.compile? (expression pattern.toList)).isSome = true

instance (pattern : String) : Decidable (Usable pattern) := inferInstanceAs (Decidable (_ → _))

theorem describesByExpression_iff {pattern : String}
    (h : (Expression.compile? (expression pattern.toList)).isSome = true) (id : String) :
    describesByExpression pattern id = true ↔ Covers pattern.toList id.toList := by
  obtain ⟨parts, hparts⟩ := Option.isSome_iff_exists.1 h
  rw [describesByExpression, hparts, Option.any_some]
  rw [Expression.compile?, parts?_expression, Option.filter_eq_some_iff] at hparts
  obtain ⟨hparts, -⟩ := hparts
  cases hparts
  exact isFound_iff_covers pattern.toList id.toList

theorem standsFor_of_not_isWild {p : Char} (h : isWild p = false) (piece : List Char) :
    StandsFor p piece ↔ piece = [p] := by
  cases p using cases_wild with
  | star => cases h
  | mark => cases h
  | other c hs hm => simp [StandsFor]

/-- A pattern without a star or a question mark covers itself only. -/
theorem covers_iff_eq {pattern : List Char} (h : ∀ p ∈ pattern, isWild p = false)
    (id : List Char) : Covers pattern id ↔ pattern = id := by
  induction pattern generalizing id with
  | nil => simp [Covers]
  | cons p pattern ih =>
    obtain ⟨hp, hpattern⟩ := List.forall_mem_cons.1 h
    constructor
    · rintro ⟨pieces, hpieces, rfl⟩
      cases hpieces with
      | cons hpiece hpieces =>
        cases (standsFor_of_not_isWild hp _).1 hpiece
        rw [List.flatten_cons, ← (ih hpattern _).1 ⟨_, hpieces, rfl⟩]
        rfl
    · rintro rfl
      obtain ⟨pieces, hpieces, hflatten⟩ := (ih hpattern pattern).2 rfl
      exact ⟨[p] :: pieces, .cons ((standsFor_of_not_isWild hp _).2 rfl) hpieces,
        by simp [hflatten]⟩

theorem describes_iff_covers {pattern : String} (h : Usable pattern) (id : String) :
    describes pattern id = true ↔ Covers pattern.toList id.toList := by
  rw [describes]
  split
  · rename_i hw
    exact describesByExpression_iff (h hw) id
  · rename_i hw
    rw [decide_eq_true_iff, covers_iff_eq (by simpa using hw), String.toList_inj]

/-- A pattern that can be put to use describes the identifiers that it covers, whether it is
compared with them or found in them as an expression, and the device blocks for a device are those
whose patterns cover it, in their order. -/
theorem describes_exact (pattern id : String) (h : Usable pattern) :
    (describes pattern id = true ↔ Covers pattern.toList id.toList) ∧
      ((Expression.compile? (expression pattern.toList)).isSome = true →
        describesByExpression pattern id = describes pattern id) ∧
      ∀ d : Document, (∀ b ∈ d.devices, Usable b.pattern) →
        d.devicesMatching id = d.devices.filter (Covers ·.pattern.toList id.toList) := by
  refine ⟨describes_iff_covers h id, fun hc => ?_, fun d hd => ?_⟩
  · rw [Bool.eq_iff_iff, describesByExpression_iff hc, describes_iff_covers h]
  · refine List.filter_congr fun b hb => ?_
    rw [Bool.eq_iff_iff, describes_iff_covers (hd b hb), decide_eq_true_iff]

/-- Two stars and a character that means something in an expression. -/
theorem describes_exact_of_two_stars :
    let d : Document := { devices := [{ pattern := "*.?*" }, { pattern := "a.b" },
      { pattern := "a*.b" }, { pattern := "*?b" }] }
    Usable "*.?*" ∧ describes "*.?*" "axb" = false ∧
      d.devicesMatching "axb" = [{ pattern := "*?b" }] := by
  intro d
  have hd : ∀ b ∈ d.devices, Usable b.pattern := by decide
  have h := describes_exact "*.?*" "axb" (hd _ (.head _))
  refine ⟨hd _ (.head _), ?_, ?_⟩
  · exact Bool.eq_false_iff.2 (mt h.1.1 (by decide))
  · exact (h.2.2 d hd).trans (by decide)

end Wildcard

end KeyRemap
