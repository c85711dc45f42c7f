import KeyRemap.Proofs.Layout.Lexemes
import KeyRemap.Proofs.Token.Places
import Mathlib.Data.List.ModifyLast

/-!
# The lines of a layout

Which lexemes stand on which line of a text that was laid out, line by line (`piecesRows`). As the
text is read again, its tokens stand there (`exists_stacked_format`).
-/
namespace KeyRemap.Layout

open Text

theorem lies_gap (left : Option Lexeme) (l : Lexeme) : Lies (gap left l) [] := by
  unfold gap
  split
  · split
    · exact .spaces 1
    · exact .nil
  · exact .nil

theorem lies_joinedAfter (left : Option Lexeme) (ls : List Lexeme) :
    Lies (joinedAfter left ls) (trimCommas ls) := by
  induction ls generalizing left with
  | nil => exact .nil
  | cons l ls ih =>
    rw [joinedAfter_cons, trimCommas]
    split
    · exact ih left
    · exact ((lies_gap left l).append (.lexeme l)).append (ih (some l))

theorem lies_beside (ts : List Token) :
    Lies (ts.flatMap fun t => ' ' :: t.lexeme.spelling) (ts.map (·.lexeme)) := by
  induction ts with
  | nil => exact .nil
  | cons t ts ih => exact ((Lies.spaces 1).append (.lexeme t.lexeme)).append ih

variable (layout : Layout)

theorem lies_line (level : Nat) (ls : List Lexeme) :
    Lies (layout.indent level ++ joined ls) (trimCommas ls) :=
  (Lies.spaces _).append (lies_joinedAfter none ls)

theorem lies_comment (level : Nat) (l : Lexeme) :
    Lies (layout.indent level ++ l.spelling) [l] := (Lies.spaces _).append (.lexeme l)

/-- The lexemes on the lines of a group without its comments. -/
def groupRows (level : Nat) (ls : List Lexeme) : List (List Lexeme) :=
  match splitList? ls with
  | none => [trimCommas ls]
  | some (front, members, back) =>
    if (layout.indent level ++ joined ls).length ≤ layout.maxLineLength then [trimCommas ls]
    else
      [trimCommas front] ++
      (membersAfter [] members).map (fun m => trimCommas m ++ [.mark .comma]) ++
      [trimCommas back]

theorem flatten_groupRows (level : Nat) (ls : List Lexeme) :
    (layout.groupRows level ls).flatten = layout.groupLexemes level ls := by
  unfold groupRows groupLexemes
  cases splitList? ls with
  | none => simp
  | some parts =>
    simp only
    split
    · simp
    · simp [List.flatMap]

/-- The lines of a group, the last of them apart. -/
theorem exists_last_lies_groupLines (level : Nat) (ls : List Lexeme) :
    ∃ lines line rows row, layout.groupLines level ls = lines ++ [line] ∧
      layout.groupRows level ls = rows ++ [row] ∧ List.Forall₂ Lies lines rows ∧ Lies line row := by
  have hsingle := layout.lies_line level ls
  unfold groupLines groupRows
  cases splitList? ls with
  | none => exact ⟨[], _, [], _, rfl, rfl, .nil, hsingle⟩
  | some parts =>
    obtain ⟨front, members, back⟩ := parts
    simp only
    split
    · exact ⟨[], _, [], _, rfl, rfl, .nil, hsingle⟩
    · have hmembers : List.Forall₂ Lies
          ((membersAfter [] members).map fun m => layout.indent (level + 1) ++ joined m ++ [','])
          ((membersAfter [] members).map fun m => trimCommas m ++ [.mark .comma]) := by
        rw [List.forall₂_map_left_iff, List.forall₂_map_right_iff, List.forall₂_same]
        exact fun m _ => (layout.lies_line (level + 1) m).append (.lexeme (.mark .comma))
      exact ⟨_, _, _, _, rfl, rfl, .cons (layout.lies_line level front) hmembers,
        layout.lies_line level back⟩

/-- The comments that a layout leaves beside a group. -/
def kept (g : Group) : List Token :=
  if layout.keepCommentsInPlace && g.inner.isEmpty then g.beside else []

/-- The comments that a layout moves below a group. -/
def moved (g : Group) : List Token :=
  if layout.keepCommentsInPlace && g.inner.isEmpty then [] else g.inner ++ g.beside

theorem kept_subset (g : Group) : layout.kept g ⊆ g.beside := by
  unfold kept
  split
  · exact List.Subset.refl _
  · exact List.nil_subset _

theorem moved_subset (g : Group) : layout.moved g ⊆ g.inner ++ g.beside := by
  unfold moved
  split
  · exact List.nil_subset _
  · exact List.Subset.refl _

/-- The comments of a group are such. -/
theorem isComment_of_mem_inner_append {g : Group} (h : ∀ t ∈ g.beside, t.isComment = true) :
    ∀ t ∈ g.inner ++ g.beside, t.isComment = true :=
  List.forall_mem_append.2 ⟨fun _ ht => (List.mem_filter.1 ht).2, h⟩

/-- The level of what stands behind a group. -/
def levelBehind (level : Nat) (g : Group) : Nat := if g.ending = .opens then level + 1 else level

theorem withComments_nil (lines : List (List Char)) : withComments [] lines = lines := by
  cases lines using List.reverseRecOn with
  | nil => rfl
  | append_singleton lines last => simp [withComments_append_singleton]

theorem pieceLines_group (level : Nat) (g : Group) :
    layout.pieceLines level (.group g) =
      withComments (layout.kept g) (layout.groupLines level (g.tokens.map (·.lexeme))) ++
        (layout.moved g).map
          fun t => layout.indent (levelBehind level g) ++ t.lexeme.spelling := by
  unfold pieceLines kept moved levelBehind
  simp only
  split
  · simp
  · simp [withComments_nil]

/-- The lexemes on the lines of a piece. -/
def pieceRows (level : Nat) : Piece → List (List Lexeme)
  | .comment t => [[t.lexeme]]
  | .group g =>
    (layout.groupRows level (g.tokens.map (·.lexeme))).modifyLast
        (· ++ (layout.kept g).map (·.lexeme)) ++
      (layout.moved g).map fun t => [t.lexeme]

theorem lies_pieceLines (level : Nat) (p : Piece) :
    List.Forall₂ Lies (layout.pieceLines level p) (layout.pieceRows level p) := by
  cases p with
  | comment t => exact .cons (layout.lies_comment level t.lexeme) .nil
  | group g =>
    obtain ⟨lines, line, rows, row, hlines, hrows, hinit, hlast⟩ :=
      layout.exists_last_lies_groupLines level (g.tokens.map (·.lexeme))
    rw [pieceLines_group, pieceRows, hlines, hrows, withComments_append_singleton,
      List.modifyLast_concat]
    have hgroup := List.rel_append hinit (.cons (hlast.append (lies_beside (layout.kept g))) .nil)
    refine List.rel_append hgroup ?_
    rw [List.forall₂_map_left_iff, List.forall₂_map_right_iff, List.forall₂_same]
    exact fun t _ => layout.lies_comment (levelBehind level g) t.lexeme

theorem flatten_pieceRows (level : Nat) (p : Piece) :
    (layout.pieceRows level p).flatten = layout.pieceLexemes level p := by
  cases p with
  | comment t => rfl
  | group g =>
    obtain ⟨_, _, rows, row, -, hrows, -, -⟩ :=
      layout.exists_last_lies_groupLines level (g.tokens.map (·.lexeme))
    have hflat := layout.flatten_groupRows level (g.tokens.map (·.lexeme))
    have hcomments : (layout.kept g).map (·.lexeme) ++ (layout.moved g).map (·.lexeme) =
        (g.inner ++ g.beside).map (·.lexeme) := by
      unfold kept moved
      split
      · simp_all
      · simp
    have hmoved : ((layout.moved g).map fun t => [t.lexeme]).flatten =
        (layout.moved g).map (·.lexeme) := by
      rw [← List.flatMap_def, ← List.map_eq_flatMap]
    rw [hrows] at hflat
    rw [pieceRows, pieceLexemes, hrows, List.modifyLast_concat, ← hflat, ← hcomments,
      List.flatten_append, hmoved]
    simp

/-- An empty line is allowed, and neither follows the opening of a block nor precedes the closing of
one. -/
theorem blankAbove_eq_true {afterOpening : Bool} {last : Option Nat} {p : Piece}
    (h : layout.blankAbove afterOpening last p = true) :
    layout.collapseBlankLines = true ∧ last ≠ none ∧ afterOpening = false ∧ p.closes = false := by
  unfold blankAbove at h
  split at h
  · cases h
  · simp only [Bool.and_eq_true, Bool.not_eq_true'] at h
    exact ⟨h.1.1.1, Option.some_ne_none _, h.1.1.2, h.1.2⟩

/-- The lexemes on the lines of pieces. -/
def piecesRows (level : Nat) (afterOpening : Bool) (last : Option Nat) :
    List Piece → List (List Lexeme)
  | [] => []
  | p :: ps =>
    let level := if p.closes then level - 1 else level
    (if layout.blankAbove afterOpening last p then [[]] else []) ++
      layout.pieceRows level p ++
      piecesRows (if p.opens then level + 1 else level) p.opens (some p.lastLine) ps

theorem lies_piecesLines (level : Nat) (afterOpening : Bool) (last : Option Nat)
    (ps : List Piece) : List.Forall₂ Lies (layout.piecesLines level afterOpening last ps)
      (layout.piecesRows level afterOpening last ps) := by
  induction ps generalizing level afterOpening last with
  | nil => exact .nil
  | cons p ps ih =>
    refine List.rel_append (List.rel_append ?_ (layout.lies_pieceLines _ p)) (ih _ _ _)
    split
    · exact .cons .nil .nil
    · exact .nil

theorem flatten_piecesRows (level : Nat) (afterOpening : Bool) (last : Option Nat)
    (ps : List Piece) :
    (layout.piecesRows level afterOpening last ps).flatten = layout.piecesLexemes level ps := by
  induction ps generalizing level afterOpening last with
  | nil => rfl
  | cons p ps ih =>
    have hblank : (if layout.blankAbove afterOpening last p then [[]] else [] :
        List (List Lexeme)).flatten = [] := by
      split <;> rfl
    simp only [piecesRows, piecesLexemes, List.flatten_append, hblank, flatten_pieceRows, ih,
      List.nil_append]

/-- The tokens of a text that was laid out stand where the layout put their lexemes. -/
theorem exists_stacked_format {text : List Char} {ts : List Token} (h : tokenize text = .ok ts) :
    ∃ us m, tokenize (layout.format text) = .ok us ∧
      Stacked 1 (layout.piecesRows 0 false none (pieces ts)) us m := by
  obtain ⟨us, hu, hl⟩ := layout.tokenize_format h
  have hflat := layout.flatten_piecesRows 0 false none (pieces ts)
  obtain ⟨m, hm⟩ := stacked_of_tokenizeFrom (layout.lies_piecesLines 0 false none (pieces ts))
    (layout.format_of_tokenize h ▸ hu) (hl.trans hflat.symm)
  exact ⟨us, m, hu, hm⟩

end KeyRemap.Layout
