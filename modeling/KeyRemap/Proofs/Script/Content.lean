import KeyRemap.Proofs.Script.Items
import KeyRemap.Script.Read

/-!
# What tokens say

`Says place pending ts d` tells what a run of tokens says in a place, comments included: a comment
waits for the next statement, header or end, and so do those inside a statement or a header. The
reader gives a document just when the tokens say it (`ofTokens_eq_ok_iff`), so what is proved of
`Says` by one induction holds of what is read from any text.
-/
namespace KeyRemap

instance instDecidableEqExcept {ε α : Type} [DecidableEq ε] [DecidableEq α] :
    DecidableEq (Except ε α)
  | .ok a, .ok b => decidable_of_iff (a = b) (by simp)
  | .error e, .error f => decidable_of_iff (e = f) (by simp)
  | .ok _, .error _ | .error _, .ok _ => isFalse (by simp)

namespace Script

/-- What tokens say in a place while comments wait. The document holds what the tokens declare, and
as trailing comments those that wait at their end. -/
inductive Says : Place → List String → List Token → Document → Prop
  | done (place : Place) (pending : List String) : Says place pending [] { trailing := pending }
  | comment {place : Place} {pending : List String} {t : Token} {ts : List Token} {d : Document}
    (ht : t.isComment = true) (hs : Says place (pending ++ [t.lexeme.text]) ts d) :
    Says place pending (t :: ts) d
  | statement {place : Place} {pending : List String} {first : Token} {ts us : List Token}
    {m : Mapping} {d : Document} (hf : first.isComment = false) (he : EndsInWord ts)
    (hm : Grammar.Statement (wordsOf (first :: ts)) m) (hs : Says place (remarksOf ts) us d) :
    Says place pending (first :: ts ++ us)
      { d with entries := ⟨m, pending, first.position⟩ :: d.entries }
  | layer {place : Place} {pending : List String} {first brace : Token} {ts us vs : List Token}
    {name : String} {b d : Document} (hp : place ≠ .layer) (hf : first.isComment = false)
    (he : EndsInWord ts) (hh : Grammar.Header "layer" (wordsOf (first :: ts)) name)
    (hb : Says .layer (remarksOf ts) us b) (hc : brace.lexeme = .mark .closeBrace)
    (hs : Says place [] vs d) :
    Says place pending (first :: ts ++ us ++ brace :: vs)
      { d with layers := ⟨name, pending, b.entries, b.trailing, first.position⟩ :: d.layers }
  | device {pending : List String} {first brace : Token} {ts us vs : List Token}
    {pattern : String} {b d : Document} (hf : first.isComment = false)
    (he : EndsInWord ts) (hh : Grammar.Header "device" (wordsOf (first :: ts)) pattern)
    (hb : Says .device (remarksOf ts) us b) (hc : brace.lexeme = .mark .closeBrace)
    (hs : Says .topLevel [] vs d) :
    Says .topLevel pending (first :: ts ++ us ++ brace :: vs)
      { d with devices :=
          ⟨pattern, pending, b.entries, b.layers, b.trailing, first.position⟩ :: d.devices }

/-- Comments in front of anything wait for it. -/
theorem Says.comments {place : Place} {pending : List String} {cs ts : List Token} {d : Document}
    (hcs : ∀ c ∈ cs, c.isComment = true) (h : Says place (pending ++ remarksOf cs) ts d) :
    Says place pending (cs ++ ts) d := by
  induction cs generalizing pending with
  | nil => simpa using h
  | cons c cs ih =>
    have hc := hcs c List.mem_cons_self
    rw [remarksOf_comment hc] at h
    exact .comment hc (ih (fun d hd => hcs d (List.mem_cons_of_mem c hd)) (by simpa using h))

variable (stop : Position)

/-- Where a clause comes from: comments, a first word, and tokens up to its last word. -/
theorem exists_clause_of_ofTokens {ts : List Token} {i : Item} {used rest : List Item}
    (h : (Item.ofTokens ts).1 = i :: used ++ rest) : ∃ cs first us vs,
      ts = cs ++ (first :: us ++ vs) ∧ (∀ t ∈ cs, t.isComment = true) ∧
      first.isComment = false ∧ EndsInWord us ∧ i = ⟨remarksOf cs, first.lexeme, first.position⟩ ∧
      commentsOf used = remarksOf us ∧ lexemesOf (i :: used) = wordsOf (first :: us) ∧
      (Item.ofTokens vs).1 = rest ∧ (Item.ofTokens vs).2 = (Item.ofTokens ts).2 := by
  obtain ⟨cs, first, ws, rfl, hcs, hf, rfl, hws, hl⟩ := Item.exists_of_ofTokens_cons h
  obtain ⟨us, vs, rfl, he, rfl, hvs, hl'⟩ := Item.exists_of_ofTokens_append hws
  refine ⟨cs, first, us, vs, rfl, hcs, hf, he, rfl, Item.commentsOf_ofTokens_of_endsInWord he, ?_,
    hvs, hl'.trans hl⟩
  rw [lexemesOf_cons, Item.lexemesOf_ofTokens, wordsOf_word hf]

/-- A statement that is read is the first thing that its tokens say. -/
theorem says_of_statement {at_ : Place} {c c' : Cursor} {e : Entry}
    (h : statement stop at_ c = .ok (e, c')) {ts : List Token}
    (hts : (Item.ofTokens ts).1 = c.items) : ∃ us vs, ts = us ++ vs ∧
      (Item.ofTokens vs).1 = c'.items ∧ (Item.ofTokens vs).2 = (Item.ofTokens ts).2 ∧
      ∀ {place : Place} {ws : List Token} {d : Document}, Says place c'.pending ws d →
        Says place c.pending (us ++ ws) { d with entries := e :: d.entries } := by
  obtain ⟨i, used, m, hi, hp, rfl, hm⟩ := statement_sound stop h
  rw [hi] at hts
  obtain ⟨cs, first, us, vs, rfl, hcs, hf, he, rfl, hu, hw, hvs, hl⟩ :=
    exists_clause_of_ofTokens hts
  refine ⟨cs ++ (first :: us), vs, by simp, hvs, hl, fun {place ws d} hs => ?_⟩
  rw [hp, hu] at hs
  rw [List.append_assoc]
  exact .comments hcs (.statement hf he (hw ▸ hm) hs)

/-- What is read of a layer is what its tokens say. -/
theorem says_of_layerBody {c c' : Cursor} {es : List Entry} {trailing : List String}
    (h : layerBody stop c = .ok ((es, trailing), c')) {ts : List Token}
    (hts : (Item.ofTokens ts).1 = c.items) : ∃ us brace vs, ts = us ++ brace :: vs ∧
      brace.lexeme = .mark .closeBrace ∧ c' = ⟨[], (Item.ofTokens vs).1⟩ ∧
      Says .layer c.pending us { entries := es, trailing := trailing } := by
  fun_induction layerBody stop c generalizing es trailing c' ts with
  | case1 | case3 | case4 => cases h
  | case2 c i is hi hb =>
    cases h
    rw [hi] at hts
    obtain ⟨cs, first, us, rfl, hcs, -, rfl, rfl, -⟩ := Item.exists_of_ofTokens_cons hts
    refine ⟨cs, first, us, rfl, hb, rfl, ?_⟩
    simpa using Says.comments hcs (.done .layer (c.pending ++ remarksOf cs))
  | case5 c i is hi hb entry c₁ hs hlt entries trailing' c₂ hr ih =>
    cases h
    obtain ⟨us, vs, rfl, hvs, -, hsays⟩ := says_of_statement stop hs hts
    obtain ⟨body, brace, rest, rfl, hbrace, hc', hb'⟩ := ih hr hvs
    exact ⟨us ++ body, brace, rest, by simp, hbrace, hc', hsays hb'⟩

/-- A header that is read, in front of the items of a body. -/
theorem exists_header_of_ofTokens {word name : String} {i : Item} {is : List Item} {c : Cursor}
    {ts : List Token} (hi : i.lexeme = .name word) (h : header stop word ⟨[], is⟩ = .ok (name, c))
    (hts : (Item.ofTokens ts).1 = i :: is) : ∃ cs first us vs,
      ts = cs ++ (first :: us ++ vs) ∧ (∀ t ∈ cs, t.isComment = true) ∧
      first.isComment = false ∧ EndsInWord us ∧ i = ⟨remarksOf cs, first.lexeme, first.position⟩ ∧
      Grammar.Header word (wordsOf (first :: us)) name ∧ c.pending = remarksOf us ∧
      (Item.ofTokens vs).1 = c.items ∧ (Item.ofTokens vs).2 = (Item.ofTokens ts).2 := by
  obtain ⟨used, hu, hp, hh⟩ := (recognizes_header stop word).sound h
  simp only at hu hp
  rw [hu, ← List.cons_append] at hts
  obtain ⟨cs, first, us, vs, rfl, hcs, hf, he, rfl, hr, hw, hvs, hl⟩ :=
    exists_clause_of_ofTokens hts
  refine ⟨cs, first, us, vs, rfl, hcs, hf, he, rfl, ?_, by simpa [hr] using hp, hvs, hl⟩
  rw [← hw, lexemesOf_cons, hi]
  exact hh

theorem snd_ofTokens_brace {us vs : List Token} {brace : Token}
    (hb : brace.lexeme = .mark .closeBrace) :
    (Item.ofTokens (us ++ brace :: vs)).2 = (Item.ofTokens vs).2 := by
  rw [← List.singleton_append, ← List.append_assoc, Item.ofTokens_append]
  exact endsInWord_append us (endsInWord_nil.cons (isComment_of_lexeme hb)) (by simp)

/-- A layer block that is read is the first thing that its tokens say. -/
theorem says_of_layer {i : Item} {is : List Item} {pending : List String} {l : LayerBlock}
    {c : Cursor} {ts : List Token} (hi : i.lexeme = .name "layer")
    (h : layer stop i.position (pending ++ i.comments) ⟨[], is⟩ = .ok (l, c))
    (hts : (Item.ofTokens ts).1 = i :: is) : ∃ us vs, ts = us ++ vs ∧
      c = ⟨[], (Item.ofTokens vs).1⟩ ∧ (Item.ofTokens vs).2 = (Item.ofTokens ts).2 ∧
      ∀ {place : Place} {ws : List Token} {d : Document}, place ≠ .layer → Says place [] ws d →
        Says place pending (us ++ ws) { d with layers := l :: d.layers } := by
  unfold layer at h
  split at h
  · cases h
  · rename_i name c₁ hh
    split at h
    · cases h
    · rename_i es trailing c₂ hb
      cases h
      obtain ⟨cs, first, us, vs, rfl, hcs, hf, he, rfl, hhead, hp, hvs, hl⟩ :=
        exists_header_of_ofTokens stop hi hh hts
      obtain ⟨body, brace, rest, rfl, hbrace, rfl, hbody⟩ := says_of_layerBody stop hb hvs
      refine ⟨cs ++ (first :: us ++ body ++ [brace]), rest, by simp, rfl,
        (snd_ofTokens_brace hbrace).symm.trans hl, fun {place ws d} hn hs => ?_⟩
      rw [hp] at hbody
      have hsays : Says place (pending ++ remarksOf cs)
          (first :: us ++ body ++ brace :: ws) _ := .layer hn hf he hhead hbody hbrace hs
      simpa using Says.comments hcs hsays

/-- What is read of a device block is what its tokens say. -/
theorem says_of_deviceBody {c c' : Cursor} {es : List Entry} {ls : List LayerBlock}
    {trailing : List String} (h : deviceBody stop c = .ok ((es, ls, trailing), c'))
    {ts : List Token} (hts : (Item.ofTokens ts).1 = c.items) : ∃ us brace vs,
      ts = us ++ brace :: vs ∧ brace.lexeme = .mark .closeBrace ∧
      c' = ⟨[], (Item.ofTokens vs).1⟩ ∧
      Says .device c.pending us { entries := es, layers := ls, trailing := trailing } := by
  fun_induction deviceBody stop c generalizing es ls trailing c' ts with
  | case1 | case3 | case4 | case6 | case7 => cases h
  | case2 c i is hi hb =>
    cases h
    rw [hi] at hts
    obtain ⟨cs, first, us, rfl, hcs, -, rfl, rfl, -⟩ := Item.exists_of_ofTokens_cons hts
    refine ⟨cs, first, us, rfl, hb, rfl, ?_⟩
    simpa using Says.comments hcs (.done .device (c.pending ++ remarksOf cs))
  | case5 c i is hi hb hl l c₁ hs hlt es' ls' trailing' c₂ hr ih =>
    cases h
    rw [hi] at hts
    obtain ⟨us, vs, rfl, rfl, -, hsays⟩ := says_of_layer stop hl hs hts
    obtain ⟨body, brace, rest, rfl, hbrace, hc', hb'⟩ := ih hr rfl
    exact ⟨us ++ body, brace, rest, by simp, hbrace, hc', hsays (by simp) hb'⟩
  | case8 c i is hi hb hl entry c₁ hs hlt es' ls' trailing' c₂ hr ih =>
    cases h
    obtain ⟨us, vs, rfl, hvs, -, hsays⟩ := says_of_statement stop hs hts
    obtain ⟨body, brace, rest, rfl, hbrace, hc', hb'⟩ := ih hr hvs
    exact ⟨us ++ body, brace, rest, by simp, hbrace, hc', hsays hb'⟩

/-- A device block that is read is the first thing that its tokens say. -/
theorem says_of_device {i : Item} {is : List Item} {pending : List String} {b : DeviceBlock}
    {c : Cursor} {ts : List Token} (hi : i.lexeme = .name "device")
    (h : device stop i.position (pending ++ i.comments) ⟨[], is⟩ = .ok (b, c))
    (hts : (Item.ofTokens ts).1 = i :: is) : ∃ us vs, ts = us ++ vs ∧
      c = ⟨[], (Item.ofTokens vs).1⟩ ∧ (Item.ofTokens vs).2 = (Item.ofTokens ts).2 ∧
      ∀ {ws : List Token} {d : Document}, Says .topLevel [] ws d →
        Says .topLevel pending (us ++ ws) { d with devices := b :: d.devices } := by
  unfold device at h
  split at h
  · cases h
  · rename_i pattern c₁ hh
    split at h
    · cases h
    · rename_i es ls trailing c₂ hb
      cases h
      obtain ⟨cs, first, us, vs, rfl, hcs, hf, he, rfl, hhead, hp, hvs, hl⟩ :=
        exists_header_of_ofTokens stop hi hh hts
      obtain ⟨body, brace, rest, rfl, hbrace, rfl, hbody⟩ := says_of_deviceBody stop hb hvs
      refine ⟨cs ++ (first :: us ++ body ++ [brace]), rest, by simp, rfl,
        (snd_ofTokens_brace hbrace).symm.trans hl, fun {ws d} hs => ?_⟩
      rw [hp] at hbody
      have hsays : Says .topLevel (pending ++ remarksOf cs)
          (first :: us ++ body ++ brace :: ws) _ := .device hf he hhead hbody hbrace hs
      simpa using Says.comments hcs hsays

/-- What is read of a script is what its tokens say. -/
theorem says_of_document {last : List String} {c : Cursor} {d : Document}
    (h : document stop last c = .ok d) {ts : List Token} (hts : (Item.ofTokens ts).1 = c.items)
    (hl : (Item.ofTokens ts).2 = last) : Says .topLevel c.pending ts d := by
  fun_induction document stop last c generalizing d ts with
  | case2 | case3 | case5 | case6 | case8 | case9 => cases h
  | case1 c hi =>
    cases h
    rw [hi] at hts
    have hw : wordsOf ts = [] := by
      rw [← Item.lexemesOf_ofTokens, hts]
      rfl
    have hcs := wordTokens_eq_nil_iff.1 (List.map_eq_nil_iff.1 hw)
    have hr : remarksOf ts = (Item.ofTokens ts).2 := by
      rw [← Item.commentsOf_ofTokens, hts]
      rfl
    rw [← hl, ← hr]
    simpa using Says.comments hcs (.done .topLevel (c.pending ++ remarksOf ts))
  | case4 c i is hi hw b c₁ hs hlt doc hr ih =>
    cases h
    rw [hi] at hts
    obtain ⟨us, vs, rfl, rfl, hl', hsays⟩ := says_of_device stop hw hs hts
    exact hsays (ih hr rfl (hl'.trans hl))
  | case7 c i is hi hw hw' l c₁ hs hlt doc hr ih =>
    cases h
    rw [hi] at hts
    obtain ⟨us, vs, rfl, rfl, hl', hsays⟩ := says_of_layer stop hw' hs hts
    exact hsays (by simp) (ih hr rfl (hl'.trans hl))
  | case10 c i is hi hw hw' entry c₁ hs hlt doc hr ih =>
    cases h
    obtain ⟨us, vs, rfl, hvs, hl', hsays⟩ := says_of_statement stop hs hts
    exact hsays (ih hr hvs (hl'.trans hl))

theorem statement_shift (place : Place) (pending : List String) (x : String) (i : Item)
    (is : List Item) :
    statement stop place ⟨pending, { i with comments := x :: i.comments } :: is⟩ =
      statement stop place ⟨pending ++ [x], i :: is⟩ := by
  simp [statement]

theorem layerBody_cons (pending : List String) (i : Item) (is : List Item) :
    layerBody stop ⟨pending, i :: is⟩ =
      if i.lexeme = .mark .closeBrace then .ok (([], pending ++ i.comments), ⟨[], is⟩)
      else
        match statement stop .layer ⟨pending, i :: is⟩ with
        | .error e => .error e
        | .ok (e, c) => (layerBody stop c).map fun (b, c) => ((e :: b.1, b.2), c) := by
  rw [layerBody.eq_def]
  simp only
  split
  · rfl
  · split
    · rename_i h
      simp only [h]
    · rename_i h
      simp only [h]
      cases layerBody stop _ <;> rfl

theorem deviceBody_cons (pending : List String) (i : Item) (is : List Item) :
    deviceBody stop ⟨pending, i :: is⟩ =
      if i.lexeme = .mark .closeBrace then .ok (([], [], pending ++ i.comments), ⟨[], is⟩)
      else if i.lexeme = .name "layer" then
        match layer stop i.position (pending ++ i.comments) ⟨[], is⟩ with
        | .error e => .error e
        | .ok (l, c) => (deviceBody stop c).map fun (b, c) => ((b.1, l :: b.2.1, b.2.2), c)
      else
        match statement stop .device ⟨pending, i :: is⟩ with
        | .error e => .error e
        | .ok (e, c) => (deviceBody stop c).map fun (b, c) => ((e :: b.1, b.2.1, b.2.2), c) := by
  rw [deviceBody.eq_def]
  simp only
  split; · rfl
  split
  all_goals
    -- the first part is read or not; what follows it goes behind it
    split
    · rename_i h
      simp only [h]
    · rename_i h
      simp only [h]
      cases deviceBody stop _ <;> rfl

theorem document_cons (last pending : List String) (i : Item) (is : List Item) :
    document stop last ⟨pending, i :: is⟩ =
      if i.lexeme = .name "device" then
        match device stop i.position (pending ++ i.comments) ⟨[], is⟩ with
        | .error e => .error e
        | .ok (b, c) =>
          (document stop last c).map fun d => { d with devices := b :: d.devices }
      else if i.lexeme = .name "layer" then
        match layer stop i.position (pending ++ i.comments) ⟨[], is⟩ with
        | .error e => .error e
        | .ok (l, c) => (document stop last c).map fun d => { d with layers := l :: d.layers }
      else
        match statement stop .topLevel ⟨pending, i :: is⟩ with
        | .error e => .error e
        | .ok (e, c) =>
          (document stop last c).map fun d => { d with entries := e :: d.entries } := by
  rw [document.eq_def]
  simp only
  split
  case' isFalse => split
  all_goals
    split
    · rename_i h
      simp only [h]
    · rename_i h
      simp only [h]
      cases document stop last _ <;> rfl

theorem layerBody_shift (pending : List String) (x : String) (i : Item) (is : List Item) :
    layerBody stop ⟨pending, { i with comments := x :: i.comments } :: is⟩ =
      layerBody stop ⟨pending ++ [x], i :: is⟩ := by
  simp [layerBody_cons, statement_shift]

theorem deviceBody_shift (pending : List String) (x : String) (i : Item) (is : List Item) :
    deviceBody stop ⟨pending, { i with comments := x :: i.comments } :: is⟩ =
      deviceBody stop ⟨pending ++ [x], i :: is⟩ := by
  simp [deviceBody_cons, statement_shift]

theorem document_shift (last pending : List String) (x : String) (i : Item) (is : List Item) :
    document stop last ⟨pending, { i with comments := x :: i.comments } :: is⟩ =
      document stop last ⟨pending ++ [x], i :: is⟩ := by
  simp [document_cons, statement_shift]

/-- The reader gives the document in the place, in front of the closing brace of a block. -/
def IsRead (pending : List String) (ts : List Token) (d : Document) : Place → Prop
  | .topLevel => document stop (Item.ofTokens ts).2 ⟨pending, (Item.ofTokens ts).1⟩ = .ok d
  | .device => ∀ (brace : Token) (vs : List Token), brace.lexeme = .mark .closeBrace →
      deviceBody stop ⟨pending, (Item.ofTokens (ts ++ brace :: vs)).1⟩ =
        .ok ((d.entries, d.layers, d.trailing), ⟨[], (Item.ofTokens vs).1⟩)
  | .layer => ∀ (brace : Token) (vs : List Token), brace.lexeme = .mark .closeBrace →
      layerBody stop ⟨pending, (Item.ofTokens (ts ++ brace :: vs)).1⟩ =
        .ok ((d.entries, d.trailing), ⟨[], (Item.ofTokens vs).1⟩)

theorem isRead_done (place : Place) (pending : List String) :
    IsRead stop pending [] { trailing := pending } place := by
  cases place with
  | topLevel => simp [IsRead, Item.ofTokens, document]
  | device | layer =>
    intro brace vs hb
    rw [List.nil_append, Item.ofTokens_word (isComment_of_lexeme hb)]
    simp [deviceBody_cons, layerBody_cons, hb]

theorem exists_items_of_brace (ts : List Token) {brace : Token} (vs : List Token)
    (hb : brace.lexeme = .mark .closeBrace) :
    ∃ i is, (Item.ofTokens (ts ++ brace :: vs)).1 = i :: is := by
  apply List.exists_cons_of_ne_nil
  intro hn
  have hw := Item.lexemesOf_ofTokens (ts ++ brace :: vs)
  simp [hn, wordsOf_word (isComment_of_lexeme hb)] at hw

theorem IsRead.comment {place : Place} {pending : List String} {t : Token} {ts : List Token}
    {d : Document} (h : IsRead stop (pending ++ [t.lexeme.text]) ts d place)
    (ht : t.isComment = true) : IsRead stop pending (t :: ts) d place := by
  cases place with
  | topLevel =>
    unfold IsRead at *
    cases hn : (Item.ofTokens ts).1 with
    | nil =>
      -- no word follows, so the comment is one of those at the end
      rw [Item.ofTokens_comment_nil ht hn]
      simpa [hn, document] using h
    | cons i is =>
      rw [Item.ofTokens_comment_cons ht hn, document_shift, ← hn]
      exact h
  | device | layer =>
    intro brace vs hb
    obtain ⟨i, is, hn⟩ := exists_items_of_brace ts vs hb
    rw [List.cons_append, Item.ofTokens_comment_cons ht hn]
    simp only [deviceBody_shift, layerBody_shift]
    rw [← hn]
    exact h brace vs hb

/-- The items of a clause and of what stands behind it. -/
theorem ofTokens_clause {first : Token} {ts : List Token} (hf : first.isComment = false)
    (he : EndsInWord ts) (us : List Token) :
    Item.ofTokens (first :: ts ++ us) =
      (⟨[], first.lexeme, first.position⟩ :: ((Item.ofTokens ts).1 ++ (Item.ofTokens us).1),
        (Item.ofTokens us).2) := by
  rw [Item.ofTokens_append (he.cons hf), Item.ofTokens_word hf]
  rfl

theorem exists_form_of_statement {ls : List Lexeme} {m : Mapping} (h : Grammar.Statement ls m) :
    ∃ (form : Form) (ms : List Lexeme), ls = .name form.name :: ms := by
  obtain ⟨h⟩ := h
  obtain ⟨form, ms, rfl⟩ := exists_form_of_call h
  exact ⟨form, _, rfl⟩

theorem IsRead.statement {place : Place} {pending : List String} {first : Token}
    {ts us : List Token} {m : Mapping} {d : Document}
    (h : IsRead stop (remarksOf ts) us d place) (hf : first.isComment = false)
    (he : EndsInWord ts) (hm : Grammar.Statement (wordsOf (first :: ts)) m) :
    IsRead stop pending (first :: ts ++ us)
      { d with entries := ⟨m, pending, first.position⟩ :: d.entries } place := by
  rw [wordsOf_word hf] at hm
  obtain ⟨form, ms, hw⟩ := exists_form_of_statement hm
  obtain ⟨hw, -⟩ := List.cons.inj hw
  have hs (rest : List Item) : Script.statement stop place
      ⟨pending, ⟨[], first.lexeme, first.position⟩ :: ((Item.ofTokens ts).1 ++ rest)⟩ =
      .ok (⟨m, pending, first.position⟩, ⟨remarksOf ts, rest⟩) := by
    rw [← Item.lexemesOf_ofTokens, ← lexemesOf_cons ⟨[], first.lexeme, first.position⟩] at hm
    rw [← List.cons_append, statement_complete stop hm, List.append_nil,
      Item.commentsOf_ofTokens_of_endsInWord he]
  have hd : form.name ≠ "device" := by cases form <;> decide
  have hl : form.name ≠ "layer" := by cases form <;> decide
  cases place with
  | topLevel =>
    unfold IsRead at *
    rw [ofTokens_clause hf he, document_cons, hs, if_neg (by simpa [hw] using hd),
      if_neg (by simpa [hw] using hl)]
    simp only [h, Except.map]
  | device =>
    intro brace vs hb
    rw [List.append_assoc, ofTokens_clause hf he, deviceBody_cons, hs,
      if_neg (by simp [hw]), if_neg (by simpa [hw] using hl)]
    simp only [h brace vs hb, Except.map]
  | layer =>
    intro brace vs hb
    rw [List.append_assoc, ofTokens_clause hf he, layerBody_cons, hs,
      if_neg (by simp [hw])]
    simp only [h brace vs hb, Except.map]

/-- A header of the grammar is read, behind its first word, wherever it stands. -/
theorem header_complete {word name : String} {first : Token} {ts : List Token}
    (hf : first.isComment = false) (he : EndsInWord ts)
    (hh : Grammar.Header word (wordsOf (first :: ts)) name) (rest : List Item) :
    first.lexeme = .name word ∧
      header stop word ⟨[], (Item.ofTokens ts).1 ++ rest⟩ = .ok (name, ⟨remarksOf ts, rest⟩) := by
  rw [wordsOf_word hf] at hh
  have hw : first.lexeme = .name word := by
    generalize first.lexeme = l at hh
    generalize hl : l :: wordsOf ts = ls at hh
    obtain ⟨name, raw⟩ := hh
    exact (List.cons.inj hl).1
  refine ⟨hw, ?_⟩
  rw [hw, ← Item.lexemesOf_ofTokens] at hh
  rw [(recognizes_header stop word).complete hh, Item.commentsOf_ofTokens_of_endsInWord he]
  rfl

theorem layer_of_isRead {name : String} {first brace : Token} {ts us vs : List Token}
    {b : Document} (hf : first.isComment = false) (he : EndsInWord ts)
    (hh : Grammar.Header "layer" (wordsOf (first :: ts)) name)
    (hb : IsRead stop (remarksOf ts) us b .layer) (hc : brace.lexeme = .mark .closeBrace)
    (position : Position) (comments : List String) :
    layer stop position comments
      ⟨[], (Item.ofTokens ts).1 ++ (Item.ofTokens (us ++ brace :: vs)).1⟩ =
        .ok (⟨name, comments, b.entries, b.trailing, position⟩, ⟨[], (Item.ofTokens vs).1⟩) := by
  simp only [layer, (header_complete stop hf he hh _).2, hb brace vs hc]

theorem IsRead.layer {place : Place} {pending : List String} {first brace : Token}
    {ts us vs : List Token} {name : String} {b d : Document} (h : IsRead stop [] vs d place)
    (hp : place ≠ .layer) (hf : first.isComment = false) (he : EndsInWord ts)
    (hh : Grammar.Header "layer" (wordsOf (first :: ts)) name)
    (hb : IsRead stop (remarksOf ts) us b .layer) (hc : brace.lexeme = .mark .closeBrace) :
    IsRead stop pending (first :: ts ++ us ++ brace :: vs)
      { d with layers := ⟨name, pending, b.entries, b.trailing, first.position⟩ :: d.layers }
      place := by
  obtain ⟨hw, -⟩ := header_complete stop hf he hh []
  cases place with
  | topLevel =>
    unfold IsRead at h ⊢
    rw [List.append_assoc, ofTokens_clause hf he, document_cons,
      if_neg (by simp [hw]), if_pos hw, layer_of_isRead stop hf he hh hb hc]
    simp only [snd_ofTokens_brace hc, h, Except.map, List.append_nil]
  | device =>
    intro brace' ws hc'
    have ha : first :: ts ++ us ++ brace :: vs ++ brace' :: ws =
        first :: ts ++ (us ++ brace :: (vs ++ brace' :: ws)) := by simp
    rw [ha, ofTokens_clause hf he, deviceBody_cons, if_neg (by simp [hw]), if_pos hw,
      layer_of_isRead stop hf he hh hb hc]
    simp only [h brace' ws hc', Except.map, List.append_nil]
  | layer => exact absurd rfl hp

theorem IsRead.device {pending : List String} {first brace : Token} {ts us vs : List Token}
    {pattern : String} {b d : Document} (h : IsRead stop [] vs d .topLevel)
    (hf : first.isComment = false) (he : EndsInWord ts)
    (hh : Grammar.Header "device" (wordsOf (first :: ts)) pattern)
    (hb : IsRead stop (remarksOf ts) us b .device) (hc : brace.lexeme = .mark .closeBrace) :
    IsRead stop pending (first :: ts ++ us ++ brace :: vs)
      { d with devices :=
          ⟨pattern, pending, b.entries, b.layers, b.trailing, first.position⟩ :: d.devices }
      .topLevel := by
  obtain ⟨hw, hr⟩ := header_complete stop hf he hh (Item.ofTokens (us ++ brace :: vs)).1
  unfold IsRead at h ⊢
  rw [List.append_assoc, ofTokens_clause hf he, document_cons, if_pos hw]
  simp only [Script.device, hr, hb brace vs hc, snd_ofTokens_brace hc, h, Except.map,
    List.append_nil]

/-- What tokens say is read from them. -/
theorem isRead_of_says {place : Place} {pending : List String} {ts : List Token} {d : Document}
    (h : Says place pending ts d) : IsRead stop pending ts d place := by
  induction h with
  | done place pending => exact isRead_done stop place pending
  | comment ht _ ih => exact ih.comment stop ht
  | statement hf he hm _ ih => exact ih.statement stop hf he hm
  | layer hp hf he hh _ hc _ ihb ih => exact ih.layer stop hp hf he hh ihb hc
  | device hf he hh _ hc _ ihb ih => exact ih.device stop hf he hh ihb hc

/-- The reader gives a document just when the tokens say it. -/
theorem ofTokens_eq_ok_iff {ts : List Token} {d : Document} :
    ofTokens stop ts = .ok d ↔ Says .topLevel [] ts d :=
  ⟨fun h => says_of_document stop h rfl rfl, fun h => isRead_of_says stop h⟩

/-- Tokens say one thing in a script. -/
theorem Says.unique {ts : List Token} {d e : Document} (hd : Says .topLevel [] ts d)
    (he : Says .topLevel [] ts e) : d = e :=
  Except.ok.inj (((ofTokens_eq_ok_iff .start).2 hd).symm.trans ((ofTokens_eq_ok_iff .start).2 he))

/-- A text is read as what its tokens say. -/
theorem parse_eq_ok_iff {text : List Char} {d : Document} :
    parse text = .ok d ↔ ∃ ts, tokenize text = .ok ts ∧ Says .topLevel [] ts d := by
  unfold parse
  cases ht : tokenize text with
  | error e => simp
  | ok ts => simp [ofTokens_eq_ok_iff]

theorem read_eq_ok_iff {limit : Nat} {source : String} {d : Document} :
    read limit source = .ok d ↔
      source.utf8ByteSize ≤ limit ∧ parse source.toList = .ok d := by
  unfold read
  split <;> simp [*]

end Script

end KeyRemap
