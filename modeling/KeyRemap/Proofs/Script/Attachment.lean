import KeyRemap.Proofs.Script.RoundTrip
import KeyRemap.Proofs.Token.Lossless
import Mathlib.Data.List.Nodup

/-!
# Where comments belong

A comment belongs to the next statement or block that begins behind it, or to the block that ends
before any begins, or else to the document (`parse_attaches`). Names begin statements and blocks
and stand nowhere else, so on either side of what a run of tokens says only its names and closing
braces count, and comments inside a statement or a header wait like those in front of one.
-/
namespace KeyRemap

namespace Lexeme

/-- Whether a word begins a statement or a block, which nothing but a name does. -/
def isOpening : Lexeme → Bool
  | .name _ => true
  | _ => false

/-- Whether a word ends a block. -/
def isClosing (l : Lexeme) : Bool := l = .mark .closeBrace

/-- Whether comments in front of a word belong to what it begins or ends. -/
def isAnchor (l : Lexeme) : Bool := l.isOpening || l.isClosing

@[simp] theorem isAnchor_name (text : String) : (name text).isAnchor = true := rfl

@[simp] theorem isAnchor_quoted (value raw : String) : (quoted value raw).isAnchor = false := rfl

@[simp] theorem isAnchor_number (value : Int) (raw : String) :
    (number value raw).isAnchor = false := rfl

@[simp] theorem isAnchor_mark (m : Mark) : (mark m).isAnchor = decide (m = .closeBrace) := by
  simp [isAnchor, isOpening, isClosing]

theorem isComment_of_isAnchor {l : Lexeme} (h : l.isAnchor = true) : l.isComment = false := by
  cases l with
  | lineComment | blockComment => cases h
  | _ => rfl

end Lexeme

namespace Token

def isOpening (t : Token) : Bool := t.lexeme.isOpening

def isClosing (t : Token) : Bool := t.lexeme.isClosing

def isAnchor (t : Token) : Bool := t.lexeme.isAnchor

theorem isComment_of_isAnchor {t : Token} (h : t.isAnchor = true) : t.isComment = false :=
  Lexeme.isComment_of_isAnchor h

theorem isOpening_of_isComment {t : Token} (h : t.isComment = true) : t.isOpening = false := by
  unfold isOpening
  unfold isComment at h
  cases hl : t.lexeme <;> simp_all [Lexeme.isComment, Lexeme.isOpening]

end Token

/-- The comments that have the anchor as the first one behind them, or that have none. -/
def assigned (anchor : Option Token) : List Token → List String
  | [] => []
  | t :: ts =>
    if t.isComment ∧ ts.find? (·.isAnchor) = anchor then t.lexeme.text :: assigned anchor ts
    else assigned anchor ts

/-- The first word of each block with the brace that closes it. A brace closes the block that was
opened last; the open blocks are given by their first words. -/
def blockEnds : List Token → List Token → List (Token × Token)
  | _, [] => []
  | opened, t :: ts =>
    if t.lexeme = .name "layer" ∨ t.lexeme = .name "device" then blockEnds (t :: opened) ts
    else if t.isClosing then
      opened.head?.toList.map (fun first => (first, t)) ++ blockEnds opened.tail ts
    else blockEnds opened ts

def Entry.head (e : Entry) : Position × List String := (e.position, e.comments)

def LayerBlock.heads (l : LayerBlock) : List (Position × List String) :=
  (l.position, l.comments) :: l.entries.map Entry.head

def DeviceBlock.heads (b : DeviceBlock) : List (Position × List String) :=
  (b.position, b.comments) :: (b.entries.map Entry.head ++ b.layers.flatMap LayerBlock.heads)

def LayerBlock.ending (l : LayerBlock) : Position × List String := (l.position, l.trailing)

def DeviceBlock.ends (b : DeviceBlock) : List (Position × List String) :=
  (b.position, b.trailing) :: b.layers.map LayerBlock.ending

namespace Document

/-- The statements and blocks, each told by its place, with the comments in front of it. -/
def heads (d : Document) : List (Position × List String) :=
  d.entries.map Entry.head ++ d.layers.flatMap LayerBlock.heads ++
    d.devices.flatMap DeviceBlock.heads

/-- The blocks, each told by its place, with the comments in front of its end. -/
def ends (d : Document) : List (Position × List String) :=
  d.layers.map LayerBlock.ending ++ d.devices.flatMap DeviceBlock.ends

end Document

namespace Script

/-- The comments that wait behind tokens, if `pending` waited in front of them. -/
def waiting : List String → List Token → List String
  | pending, [] => pending
  | pending, t :: ts =>
    if t.isComment then waiting (pending ++ [t.lexeme.text]) ts
    else if t.isAnchor then waiting [] ts
    else waiting pending ts

/-- At each anchor wait the comments that `f` says, if `pending` waited in front of the tokens. -/
def Gathers (f : Token → List String) : List String → List Token → Prop
  | _, [] => True
  | pending, t :: ts =>
    if t.isComment then Gathers f (pending ++ [t.lexeme.text]) ts
    else if t.isAnchor then f t = pending ∧ Gathers f [] ts
    else Gathers f pending ts

section Walk

variable {f : Token → List String} {pending : List String} {t : Token} {ts us : List Token}

theorem waiting_append :
    waiting pending (ts ++ us) = waiting (waiting pending ts) us := by
  induction ts generalizing pending with
  | nil => rfl
  | cons t ts ih =>
    simp only [List.cons_append, waiting]
    split; · exact ih
    split <;> exact ih

theorem gathers_append : Gathers f pending (ts ++ us) ↔
    Gathers f pending ts ∧ Gathers f (waiting pending ts) us := by
  induction ts generalizing pending with
  | nil => simp [Gathers, waiting]
  | cons t ts ih =>
    simp only [List.cons_append, Gathers, waiting]
    split; · exact ih
    split
    · rw [ih, and_assoc]
    · exact ih

theorem waiting_anchor (h : t.isAnchor = true) : waiting pending (t :: ts) = waiting [] ts := by
  simp [waiting, h, Token.isComment_of_isAnchor h]

theorem gathers_anchor (h : t.isAnchor = true) :
    Gathers f pending (t :: ts) ↔ f t = pending ∧ Gathers f [] ts := by
  simp [Gathers, h, Token.isComment_of_isAnchor h]

theorem waiting_of_no_anchor (h : ∀ t ∈ ts, t.isAnchor = false) :
    waiting pending ts = pending ++ remarksOf ts := by
  induction ts generalizing pending with
  | nil => simp [waiting]
  | cons t ts ih =>
    obtain ⟨ht, hts⟩ := List.forall_mem_cons.1 h
    rw [waiting]
    split
    · rename_i hc
      rw [ih hts, remarksOf_comment hc, List.append_assoc, List.singleton_append]
    · rename_i hc
      rw [if_neg (by simp [ht]), ih hts, remarksOf_word (by simpa using hc)]

theorem gathers_of_no_anchor (h : ∀ t ∈ ts, t.isAnchor = false) : Gathers f pending ts := by
  induction ts generalizing pending with
  | nil => trivial
  | cons t ts ih =>
    obtain ⟨ht, hts⟩ := List.forall_mem_cons.1 h
    simp only [Gathers, ht, Bool.false_eq_true, if_false]
    split <;> exact ih hts

theorem assigned_word (anchor : Option Token) (h : t.isComment = false) :
    assigned anchor (t :: ts) = assigned anchor ts := by
  simp [assigned, h]

/-- Behind all anchors wait the comments that have none behind them. -/
theorem waiting_eq (pending : List String) (ts : List Token) :
    waiting pending ts =
      (if ts.find? (·.isAnchor) = none then pending else []) ++ assigned none ts := by
  induction ts generalizing pending with
  | nil => simp [waiting, assigned]
  | cons t ts ih =>
    cases ha : t.isAnchor with
    | true =>
      rw [waiting_anchor ha, ih, assigned_word none (Token.isComment_of_isAnchor ha),
        List.find?_cons_of_pos ha]
      simp
    | false =>
      rw [waiting, List.find?_cons_of_neg (by simp [ha])]
      cases hc : t.isComment with
      | false => simp [assigned_word none hc, ha, ih]
      | true => by_cases hf : ts.find? (·.isAnchor) = none <;> simp [assigned, hc, hf, ih]

theorem assigned_of_notMem (h : t ∉ ts) : assigned (some t) ts = [] := by
  induction ts with
  | nil => rfl
  | cons u us ih =>
    obtain ⟨-, hus⟩ := not_or.1 (mt List.mem_cons.2 h)
    rw [assigned, if_neg, ih hus]
    rintro ⟨-, hf⟩
    exact hus (List.mem_of_find?_eq_some hf)

/-- At each of different anchors wait the comments that have it as the first one behind them, and
at the first those that waited in front of the tokens. -/
theorem gathers_of_assigned (hn : ts.Nodup)
    (h : ∀ t ∈ ts, t.isAnchor = true → f t =
      (if ts.find? (·.isAnchor) = some t then pending else []) ++ assigned (some t) ts) :
    Gathers f pending ts := by
  induction ts generalizing pending with
  | nil => trivial
  | cons t ts ih =>
    obtain ⟨ht, hts⟩ := List.nodup_cons.1 hn
    obtain ⟨hf, hfs⟩ := List.forall_mem_cons.1 h
    cases ha : t.isAnchor with
    | true =>
      have hc := Token.isComment_of_isAnchor ha
      refine (gathers_anchor ha).2 ⟨?_, ih hts fun u hu hua => ?_⟩
      · rw [hf ha, assigned_word _ hc, assigned_of_notMem ht, List.find?_cons_of_pos ha,
          if_pos rfl, List.append_nil]
      · have htu : t ≠ u := fun he => ht (he ▸ hu)
        rw [hfs u hu hua, assigned_word _ hc, List.find?_cons_of_pos ha]
        simp [htu]
    | false =>
      rw [Gathers]
      simp only [ha, Bool.false_eq_true, if_false]
      split
      · rename_i hc
        refine ih hts fun u hu hua => ?_
        rw [hfs u hu hua, assigned, List.find?_cons_of_neg (by simp [ha])]
        by_cases hu : ts.find? (·.isAnchor) = some u <;> simp [hc, hu]
      · rename_i hc
        refine ih hts fun u hu hua => ?_
        rw [hfs u hu hua, assigned_word _ (by simpa using hc),
          List.find?_cons_of_neg (by simp [ha])]

end Walk

/-- A clause is a word that begins it, and behind that nothing that begins or ends anything. -/
structure IsClause (first : Token) (ts : List Token) : Prop where
  opening : first.isOpening = true
  inner : ∀ t ∈ ts, t.isAnchor = false

theorem Keys.isAnchor_eq_false {ls : List Lexeme} {keys : List String} (h : Grammar.Keys ls keys) :
    ∀ l ∈ ls, l.isAnchor = false := by
  induction h with
  | one => simp
  | more _ _ _ ih => simpa using ih

theorem Statement.isAnchor_eq_false {l : Lexeme} {ls : List Lexeme} {m : Mapping}
    (h : Grammar.Statement (l :: ls) m) : ∀ k ∈ ls, k.isAnchor = false := by
  generalize hw : l :: ls = ws at h
  obtain ⟨hm⟩ := h
  cases hm with
  | sequence source a h hc =>
    have hkeys := Keys.isAnchor_eq_false h
    obtain rfl := (List.cons.inj hw).2
    rcases hc with rfl | rfl <;> simp_all [or_imp]
  | _ =>
    obtain rfl := (List.cons.inj hw).2
    simp

theorem isAnchor_eq_false_of_words {ts : List Token} (h : ∀ l ∈ wordsOf ts, l.isAnchor = false) :
    ∀ t ∈ ts, t.isAnchor = false := by
  intro t ht
  cases hc : t.isComment with
  | true => exact Bool.eq_false_iff.2 fun ha => by simp [Token.isComment_of_isAnchor ha] at hc
  | false => exact h t.lexeme (List.mem_map_of_mem (List.mem_filter.2 ⟨ht, by simp [hc]⟩))

section Clauses

variable {first brace : Token} {ts us : List Token} {opened : List Token}

theorem isClause_of_statement {m : Mapping} (hf : first.isComment = false)
    (h : Grammar.Statement (wordsOf (first :: ts)) m) :
    IsClause first ts ∧ ∃ form : Form, first.lexeme = .name form.name := by
  rw [wordsOf_word hf] at h
  obtain ⟨form, ms, hw⟩ := exists_form_of_statement h
  have hl := (List.cons.inj hw).1
  exact ⟨⟨by simp [Token.isOpening, hl, Lexeme.isOpening],
    isAnchor_eq_false_of_words (Statement.isAnchor_eq_false h)⟩, form, hl⟩

theorem isClause_of_header {word name : String} (hf : first.isComment = false)
    (h : Grammar.Header word (wordsOf (first :: ts)) name) :
    IsClause first ts ∧ first.lexeme = .name word := by
  rw [wordsOf_word hf] at h
  generalize hw : first.lexeme :: wordsOf ts = ws at h
  obtain ⟨name, raw⟩ := h
  obtain ⟨hl, hts⟩ := List.cons.inj hw
  refine ⟨⟨by simp [Token.isOpening, hl, Lexeme.isOpening], isAnchor_eq_false_of_words ?_⟩, hl⟩
  simp [hts]

namespace IsClause

theorem isAnchor (h : IsClause first ts) : first.isAnchor = true := by
  simp [Token.isAnchor, Lexeme.isAnchor, show first.lexeme.isOpening = true from h.opening]

theorem waiting (h : IsClause first ts) (pending : List String) :
    Script.waiting pending (first :: ts) = remarksOf ts := by
  rw [waiting_anchor h.isAnchor, waiting_of_no_anchor h.inner, List.nil_append]

theorem gathers_iff {f : Token → List String} {pending : List String} (h : IsClause first ts) :
    Gathers f pending (first :: ts ++ us) ↔ f first = pending ∧ Gathers f (remarksOf ts) us := by
  rw [List.cons_append, gathers_anchor h.isAnchor, gathers_append, waiting_of_no_anchor h.inner,
    List.nil_append, and_iff_right (gathers_of_no_anchor h.inner)]

theorem filter (h : IsClause first ts) :
    (first :: ts).filter (·.isOpening) = [first] := by
  rw [List.filter_cons_of_pos h.opening, List.filter_eq_nil_iff.2 fun t ht => ?_]
  have := h.inner t ht
  simp_all [Token.isAnchor, Lexeme.isAnchor, Token.isOpening]

end IsClause

theorem blockEnds_of_no_anchor (h : ∀ t ∈ ts, t.isAnchor = false) (opened us : List Token) :
    blockEnds opened (ts ++ us) = blockEnds opened us := by
  induction ts with
  | nil => rfl
  | cons t ts ih =>
    obtain ⟨ht, hts⟩ := List.forall_mem_cons.1 h
    obtain ⟨ho, hc⟩ := Bool.or_eq_false_iff.1 ht
    have hn : ¬ (t.lexeme = .name "layer" ∨ t.lexeme = .name "device") := by
      rintro (hl | hl) <;> simp [hl, Lexeme.isOpening] at ho
    rw [List.cons_append, blockEnds, if_neg hn, if_neg (by simp [Token.isClosing, hc]), ih hts]

theorem blockEnds_comment {t : Token} (h : t.isComment = true) (opened us : List Token) :
    blockEnds opened (t :: us) = blockEnds opened us := by
  have hn : ∀ u ∈ [t], u.isAnchor = false :=
    isAnchor_eq_false_of_words (by simp [wordsOf_comment h])
  exact blockEnds_of_no_anchor hn opened us

theorem blockEnds_statement {m : Mapping} (hf : first.isComment = false)
    (h : Grammar.Statement (wordsOf (first :: ts)) m) (opened us : List Token) :
    blockEnds opened (first :: ts ++ us) = blockEnds opened us := by
  obtain ⟨hc, form, hl⟩ := isClause_of_statement hf h
  have hn : ¬ (first.lexeme = .name "layer" ∨ first.lexeme = .name "device") := by
    rw [hl]
    cases form <;> decide
  rw [List.cons_append, blockEnds, if_neg hn,
    if_neg (by simp [Token.isClosing, hl, Lexeme.isClosing]), blockEnds_of_no_anchor hc.inner]

/-- Every block that is opened in the tokens is closed in them. -/
def Closed (ts : List Token) : Prop :=
  ∀ opened us, blockEnds opened (ts ++ us) = blockEnds [] ts ++ blockEnds opened us

theorem blockEnds_block {word name : String} (hw : word = "layer" ∨ word = "device")
    (hf : first.isComment = false) (hh : Grammar.Header word (wordsOf (first :: ts)) name)
    (hu : Closed us) (hb : brace.lexeme = .mark .closeBrace) (opened vs : List Token) :
    blockEnds opened (first :: ts ++ us ++ brace :: vs) =
      blockEnds [] us ++ (first, brace) :: blockEnds opened vs := by
  obtain ⟨hc, hl⟩ := isClause_of_header hf hh
  rw [List.append_assoc, List.cons_append, blockEnds, if_pos (by simpa [hl] using hw),
    blockEnds_of_no_anchor hc.inner, hu]
  simp [blockEnds, Token.isClosing, Lexeme.isClosing, hb]

theorem Closed.block {vs : List Token} {word name : String} (hw : word = "layer" ∨ word = "device")
    (hf : first.isComment = false) (hh : Grammar.Header word (wordsOf (first :: ts)) name)
    (hu : Closed us) (hb : brace.lexeme = .mark .closeBrace) (hv : Closed vs) :
    Closed (first :: ts ++ us ++ brace :: vs) := by
  intro opened ws
  have he : first :: ts ++ us ++ brace :: vs ++ ws = first :: ts ++ us ++ brace :: (vs ++ ws) := by
    simp
  rw [he, blockEnds_block hw hf hh hu hb, blockEnds_block hw hf hh hu hb, hv, List.append_assoc,
    List.cons_append]

end Clauses

theorem Says.closed {place : Place} {pending : List String} {ts : List Token} {d : Document}
    (h : Says place pending ts d) : Closed ts := by
  induction h with
  | done => exact fun _ _ => rfl
  | @comment _ _ t ts _ ht _ ih =>
    intro opened us
    rw [List.cons_append, blockEnds_comment ht, blockEnds_comment ht, ih]
  | statement hf _ hm _ ih =>
    intro opened us
    rw [List.append_assoc, blockEnds_statement hf hm, blockEnds_statement hf hm, ih]
  | layer _ hf _ hh _ hc _ ihb ih => exact .block (.inl rfl) hf hh ihb hc ih
  | device hf _ hh _ hc _ ihb ih => exact .block (.inr rfl) hf hh ihb hc ih

theorem Says.trailing_eq {place : Place} {pending : List String} {ts : List Token} {d : Document}
    (h : Says place pending ts d) : d.trailing = waiting pending ts := by
  induction h with
  | done => rfl
  | comment ht _ ih => rw [ih, waiting, if_pos ht]
  | statement hf _ hm _ ih =>
    rw [waiting_append, (isClause_of_statement hf hm).1.waiting, ← ih]
  | layer _ hf _ hh _ hc _ ihb ih =>
    rw [waiting_append, waiting_anchor (by simp [Token.isAnchor, hc]), ← ih]
  | device hf _ hh _ hc _ ihb ih =>
    rw [waiting_append, waiting_anchor (by simp [Token.isAnchor, hc]), ← ih]

/-- A layer holds no blocks, and a device block no device blocks. -/
theorem Says.blocks_eq_nil {place : Place} {pending : List String} {ts : List Token}
    {d : Document} (h : Says place pending ts d) :
    (place = .layer → d.layers = []) ∧ (place ≠ .topLevel → d.devices = []) := by
  induction h with
  | done => exact ⟨fun _ => rfl, fun _ => rfl⟩
  | comment _ _ ih => exact ih
  | statement _ _ _ _ ih => exact ih
  | layer hp _ _ _ _ _ _ _ ih => exact ⟨fun he => absurd he hp, ih.2⟩
  | device => exact ⟨nofun, fun hn => absurd rfl hn⟩

/-- The comments of a document are those that its tokens and what waits in front of them have. -/
theorem Says.allComments_perm {place : Place} {pending : List String} {ts : List Token}
    {d : Document} (h : Says place pending ts d) :
    d.allComments.Perm (pending ++ remarksOf ts) := by
  rw [List.perm_iff_count]
  intro c
  induction h with
  | done => simp [Document.allComments, Document.allEntries, Document.allLayers]
  | comment ht _ ih => simpa [remarksOf_comment ht] using ih
  | statement hf _ _ _ ih =>
    simp only [Document.allComments, Document.allEntries, Document.allLayers, List.cons_append,
      List.flatMap_cons, remarksOf_append, remarksOf_word hf, List.count_append] at ih ⊢
    omega
  | layer _ hf _ _ hb hc _ ihb ih =>
    obtain ⟨hl, hd⟩ := hb.blocks_eq_nil
    simp only [Document.allComments, Document.allEntries, Document.allLayers, List.cons_append,
      List.flatMap_cons, List.flatMap_append, List.flatMap_nil, List.append_nil, remarksOf_append,
      remarksOf_word hf, remarksOf_word (isComment_of_lexeme hc), List.count_append,
      List.count_nil, hl rfl, hd (by simp)] at ihb ih ⊢
    omega
  | device hf _ _ hb hc _ ihb ih =>
    obtain ⟨-, hd⟩ := hb.blocks_eq_nil
    simp only [Document.allComments, Document.allEntries, Document.allLayers, List.cons_append,
      List.flatMap_cons, List.flatMap_append, List.flatMap_nil, List.append_nil, remarksOf_append,
      remarksOf_word hf, remarksOf_word (isComment_of_lexeme hc), List.count_append,
      List.count_nil, hd (by simp)] at ihb ih ⊢
    omega

/-- The statements and blocks of a document are those that names in the tokens begin, with the
comments that `f` says for the name, and its blocks those that braces close, with the comments that
`f` says for the brace. -/
structure Attached (f : Token → List String) (ts : List Token) (d : Document) : Prop where
  heads : d.heads.Perm ((ts.filter (·.isOpening)).map fun t => (t.position, f t))
  ends : d.ends.Perm ((blockEnds [] ts).map fun b => (b.1.position, f b.2))

namespace Attached

variable {f : Token → List String} {first brace : Token} {ts us vs : List Token}
  {b d d' : Document}

theorem statement (h : Attached f us d) {m : Mapping} (hf : first.isComment = false)
    (hm : Grammar.Statement (wordsOf (first :: ts)) m) : Attached f (first :: ts ++ us)
      { d with entries := ⟨m, f first, first.position⟩ :: d.entries } where
  heads := by
    rw [List.filter_append, (isClause_of_statement hf hm).1.filter]
    exact h.heads.cons _
  ends := by
    rw [blockEnds_statement hf hm]
    exact h.ends

/-- What a block adds: its head, what it holds, and its end. -/
theorem block {word name : String} (hw : word = "layer" ∨ word = "device")
    (hf : first.isComment = false) (hh : Grammar.Header word (wordsOf (first :: ts)) name)
    (hu : Closed us) (hc : brace.lexeme = .mark .closeBrace) (hb : Attached f us b)
    (h : Attached f vs d)
    (hheads : d'.heads.Perm ((first.position, f first) :: (b.heads ++ d.heads)))
    (hends : d'.ends.Perm (b.ends ++ (first.position, f brace) :: d.ends)) :
    Attached f (first :: ts ++ us ++ brace :: vs) d' where
  heads := by
    have ho : ¬ brace.isOpening = true := by simp [Token.isOpening, hc, Lexeme.isOpening]
    rw [List.filter_append, List.filter_append, (isClause_of_header hf hh).1.filter,
      List.filter_cons_of_neg ho]
    simpa using hheads.trans ((hb.heads.append h.heads).cons _)
  ends := by
    rw [blockEnds_block hw hf hh hu hc, List.map_append, List.map_cons]
    exact hends.trans (hb.ends.append (h.ends.cons _))

theorem layer {name : String} (hf : first.isComment = false)
    (hh : Grammar.Header "layer" (wordsOf (first :: ts)) name) (hu : Closed us)
    (hc : brace.lexeme = .mark .closeBrace) (hl : b.layers = []) (hd : b.devices = [])
    (hb : Attached f us b) (h : Attached f vs d) : Attached f (first :: ts ++ us ++ brace :: vs)
      { d with
        layers := ⟨name, f first, b.entries, f brace, first.position⟩ :: d.layers } := by
  refine block (.inl rfl) hf hh hu hc hb h ?_ ?_ <;> rw [List.perm_iff_count] <;> intro x
  · simp only [Document.heads, LayerBlock.heads, hl, hd, List.flatMap_cons, List.flatMap_nil,
      List.append_nil, List.count_append, List.count_cons]
    omega
  · simp [Document.ends, LayerBlock.ending, hl, hd]

theorem device {pattern : String} (hf : first.isComment = false)
    (hh : Grammar.Header "device" (wordsOf (first :: ts)) pattern) (hu : Closed us)
    (hc : brace.lexeme = .mark .closeBrace) (hd : b.devices = [])
    (hb : Attached f us b) (h : Attached f vs d) : Attached f (first :: ts ++ us ++ brace :: vs)
      { d with devices :=
          ⟨pattern, f first, b.entries, b.layers, f brace, first.position⟩ :: d.devices } := by
  refine block (.inr rfl) hf hh hu hc hb h ?_ ?_ <;> rw [List.perm_iff_count] <;> intro x
  · simp only [Document.heads, DeviceBlock.heads, hd, List.flatMap_cons, List.flatMap_nil,
      List.append_nil, List.cons_append, List.count_append, List.count_cons]
    omega
  · simp only [Document.ends, DeviceBlock.ends, hd, List.flatMap_cons, List.flatMap_nil,
      List.append_nil, List.cons_append, List.count_append, List.count_cons]
    omega

end Attached

/-- What is said has the comments that wait at its anchors. -/
theorem Says.attached {f : Token → List String} {place : Place} {pending : List String}
    {ts : List Token} {d : Document} (h : Says place pending ts d) (hf : Gathers f pending ts) :
    Attached f ts d := by
  induction h with
  | done => exact ⟨.nil, .nil⟩
  | @comment _ _ t ts _ ht _ ih =>
    rw [Gathers, if_pos ht] at hf
    obtain ⟨hheads, hends⟩ := ih hf
    refine ⟨?_, ?_⟩
    · rwa [List.filter_cons_of_neg (by simp [Token.isOpening_of_isComment ht])]
    · rwa [blockEnds_comment ht]
  | statement hw _ hm _ ih =>
    obtain ⟨rfl, hus⟩ := (isClause_of_statement hw hm).1.gathers_iff.1 hf
    exact (ih hus).statement hw hm
  | layer _ hw _ hh hb hc _ ihb ih =>
    obtain ⟨hl, hd⟩ := hb.blocks_eq_nil
    rw [List.append_assoc, (isClause_of_header hw hh).1.gathers_iff, gathers_append,
      gathers_anchor (by simp [Token.isAnchor, hc]), ← hb.trailing_eq] at hf
    obtain ⟨rfl, hus, htrailing, hvs⟩ := hf
    rw [← htrailing]
    exact .layer hw hh (hb.closed) hc (hl rfl) (hd (by simp)) (ihb hus) (ih hvs)
  | device hw _ hh hb hc _ ihb ih =>
    obtain ⟨-, hd⟩ := hb.blocks_eq_nil
    rw [List.append_assoc, (isClause_of_header hw hh).1.gathers_iff, gathers_append,
      gathers_anchor (by simp [Token.isAnchor, hc]), ← hb.trailing_eq] at hf
    obtain ⟨rfl, hus, htrailing, hvs⟩ := hf
    rw [← htrailing]
    exact .device hw hh (hb.closed) hc (hd (by simp)) (ihb hus) (ih hvs)

/-- Of a text that is read, each comment belongs to the first statement or block that begins
behind it, unless a block is closed before: then it belongs to the end of that block. A comment
with neither behind it belongs to the end of the document. No comment is lost or doubled, and those
that belong together stay in order. -/
theorem parse_attaches {text : List Char} {d : Document} (h : parse text = .ok d) :
    ∃ ts, tokenize text = .ok ts ∧ (ts.map (·.position)).Nodup ∧
      d.heads.Perm
        ((ts.filter (·.isOpening)).map fun t => (t.position, assigned (some t) ts)) ∧
      d.ends.Perm
        ((blockEnds [] ts).map fun b => (b.1.position, assigned (some b.2) ts)) ∧
      d.trailing = assigned none ts ∧ d.allComments.Perm (remarksOf ts) := by
  obtain ⟨ts, ht, hs⟩ := parse_eq_ok_iff.1 h
  have hpositions := nodup_positions_of_tokenize ht
  have hgathers : Gathers (fun t => assigned (some t) ts) [] ts :=
    gathers_of_assigned (List.Nodup.of_map _ hpositions) fun t _ _ => by simp
  obtain ⟨hheads, hends⟩ := hs.attached hgathers
  refine ⟨ts, ht, hpositions, hheads, hends, ?_, ?_⟩
  · simpa using (hs.trailing_eq).trans (waiting_eq [] ts)
  · simpa using hs.allComments_perm

/-- Comments in front of a block, inside its header, inside a statement, in front of a brace and at
the end. -/
theorem parse_attaches_around_layer :
    ∃ text d, parse text = .ok d ∧ d.allComments.length = 5 ∧
      ∃ ts, tokenize text = .ok ts ∧ (ts.map (·.position)).Nodup ∧
        d.heads.Perm
          ((ts.filter (·.isOpening)).map fun t => (t.position, assigned (some t) ts)) ∧
        d.ends.Perm
          ((blockEnds [] ts).map fun b => (b.1.position, assigned (some b.2) ts)) ∧
        d.trailing = assigned none ts ∧ d.allComments.Perm (remarksOf ts) := by
  have h : parse ("// nav\nlayer(/* head */ \"nav\") \x7b\n  map(\"A\", // inside\n \"B\");\n" ++
      "  // tail\n\x7d\n// end\n").toList = .ok {
        layers := [⟨"nav", ["// nav"], [⟨.simple "A" "B", ["/* head */"], ⟨3, 3⟩⟩],
          ["// inside", "// tail"], ⟨2, 1⟩⟩],
        trailing := ["// end"] } := by decide +kernel
  exact ⟨_, _, h, rfl, parse_attaches h⟩

end Script

end KeyRemap
