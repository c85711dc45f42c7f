import KeyRemap.Proofs.Script.Blame
import KeyRemap.Proofs.Script.Grammatical
import KeyRemap.Proofs.Token.Lossless

/-!
# The first word that is wrong

A text that consists of tokens and is not read is blamed for the first word that no program has
behind the words in front of it. If there is no such word, more text could make it a program, and
the place behind it is blamed (`position_of_read_error`). The blocks of a script are read by their
first words: in each place, what begins with a word is a statement or a block and the rest behind
it, so blocks blame what their parts do.
-/
namespace KeyRemap.Script

open Grammar

/-- The rest of a place, up to the words that close it. -/
def Rest (place : Place) (close ls : List Lexeme) : Prop :=
  ∃ bs, ls = bs ++ close ∧ Grammatical place bs

/-- A block behind its first word. -/
def Block (word : String) (place : Place) : List Lexeme → Prop :=
  Seq (fun ls => ∃ name, Header word (.name word :: ls) name) (Rest place [.mark .closeBrace])

section Rest

variable {place : Place} {close ls : List Lexeme}

theorem exists_rest (place : Place) (close : List Lexeme) : ∃ ls, Rest place close ls :=
  ⟨close, [], rfl, .none place⟩

theorem rest_cons {l : Lexeme} (hl : l ∉ close) :
    Rest place close (l :: ls) ↔ ∃ bs, ls = bs ++ close ∧ Grammatical place (l :: bs) := by
  constructor
  · rintro ⟨_ | ⟨b, bs⟩, he, h⟩
    · rw [List.nil_append] at he
      simp [← he] at hl
    · cases he
      exact ⟨bs, rfl, h⟩
  · rintro ⟨bs, rfl, h⟩
    exact ⟨l :: bs, rfl, h⟩

theorem Rest.statement {ms : List Lexeme} (hl : ∃ m, Statement ls m) (h : Rest place close ms) :
    Rest place close (ls ++ ms) := by
  obtain ⟨m, hm⟩ := hl
  obtain ⟨bs, rfl, hb⟩ := h
  exact ⟨ls ++ bs, by rw [List.append_assoc], .statement hm hb⟩

/-- A word that announces no block in its place begins a statement. -/
theorem rest_statement {l : Lexeme} (hl : l ∉ close) (hlayer : l = .name "layer" → place = .layer)
    (hdevice : l = .name "device" → place ≠ .topLevel) :
    Rest place close (l :: ls) ↔
      Seq (fun ls => ∃ m, Statement ls m) (Rest place close) (l :: ls) := by
  constructor
  · intro hr
    obtain ⟨bs, rfl, h⟩ := (rest_cons hl).1 hr
    generalize hw : l :: bs = ws at h
    cases h with
    | none => cases hw
    | @statement _ ms ns m h hs =>
      refine ⟨ms, ns ++ close, ?_, ⟨m, h⟩, ns, rfl, hs⟩
      rw [← List.cons_append, hw, List.append_assoc]
    | layer hp h =>
      obtain ⟨name, raw⟩ := h
      exact absurd (hlayer (List.cons.inj hw).1) hp
    | device h =>
      obtain ⟨name, raw⟩ := h
      exact absurd rfl (hdevice (List.cons.inj hw).1)
  · rintro ⟨ms, ns, he, hm, hn⟩
    rw [he]
    exact hn.statement hm

/-- The block that a word announces in a place, told by the place inside it. -/
inductive Announces : Place → String → Place → Prop
  | layer {place : Place} (hp : place ≠ .layer) : Announces place "layer" .layer
  | device : Announces .topLevel "device" .device

theorem Announces.grammatical_iff {inner : Place} {word : String}
    (ha : Announces place word inner) :
    Grammatical place (.name word :: ls) ↔ ∃ hs bs ms name,
      ls = hs ++ bs ++ .mark .closeBrace :: ms ∧ Header word (.name word :: hs) name ∧
      Grammatical inner bs ∧ Grammatical place ms := by
  constructor
  · intro h
    generalize hw : Lexeme.name word :: ls = ws at h
    cases h with
    | none => cases hw
    | statement h =>
      -- a function has another name than a block
      obtain ⟨form, ms, rfl⟩ := exists_form_of_statement h
      obtain ⟨hword, -⟩ := List.cons.inj hw
      cases ha <;> cases form <;> simp [Form.name] at hword
    | layer _ h hb hs =>
      obtain ⟨name, raw⟩ := h
      obtain ⟨hword, rfl⟩ := List.cons.inj hw
      cases ha with
      | layer => exact ⟨_, _, _, _, rfl, ⟨_, raw⟩, hb, hs⟩
      | device => simp at hword
    | device h hb hs =>
      obtain ⟨name, raw⟩ := h
      obtain ⟨hword, rfl⟩ := List.cons.inj hw
      cases ha with
      | layer => simp at hword
      | device => exact ⟨_, _, _, _, rfl, ⟨_, raw⟩, hb, hs⟩
  · rintro ⟨hs, bs, ms, name, rfl, hh, hb, hms⟩
    cases ha with
    | layer hp => exact .layer hp hh hb hms
    | device => exact .device hh hb hms

/-- A word that announces a block in its place stands in front of the rest of the block. -/
theorem rest_block {inner : Place} {word : String} (ha : Announces place word inner)
    (hl : .name word ∉ close) :
    Rest place close (.name word :: ls) ↔ Seq (Block word inner) (Rest place close) ls := by
  simp only [rest_cons hl, ha.grammatical_iff]
  constructor
  · rintro ⟨_, rfl, hs, bs, ms, name, rfl, hh, hb, hms⟩
    exact ⟨hs ++ (bs ++ [.mark .closeBrace]), ms ++ close, by simp,
      ⟨hs, _, rfl, ⟨name, hh⟩, bs, rfl, hb⟩, ms, rfl, hms⟩
  · rintro ⟨_, _, rfl, ⟨hs, _, rfl, ⟨name, hh⟩, bs, rfl, hb⟩, ms, rfl, hms⟩
    exact ⟨hs ++ bs ++ .mark .closeBrace :: ms, by simp, hs, bs, ms, name, rfl, hh, hb, hms⟩

end Rest

section Blames

variable {stop p : Position} {place : Place} {close : List Lexeme} {i : Item} {is : List Item}

/-- In front of the rest of a place, a statement is blamed as a part of it. -/
theorem Blames.statement {items : List Item}
    (h : Blames stop (Seq (fun ls => ∃ m, Statement ls m) (Rest place close)) items p)
    (hi : items = i :: is) (hl : i.lexeme ∉ close) (hlayer : i.lexeme = .name "layer" → place = .layer)
    (hdevice : i.lexeme = .name "device" → place ≠ .topLevel) :
    Blames stop (Rest place close) items p := by
  subst hi
  obtain ⟨ls, hs⟩ := exists_statement
  obtain ⟨ms, hr⟩ := exists_rest place close
  exact h.cons ⟨_, ls, ms, rfl, hs, hr⟩ ⟨ms, hr⟩ fun ls => rest_statement hl hlayer hdevice

/-- Behind the word that announces it, a block is blamed as a part of the rest of its place. -/
theorem Blames.block {inner : Place} {word : String} (ha : Announces place word inner)
    (h : Blames stop (Seq (Block word inner) (Rest place close)) is p)
    (hi : i.lexeme = .name word) (hl : i.lexeme ∉ close) :
    Blames stop (Rest place close) (i :: is) p :=
  h.behind_word fun ls => by rw [hi] at hl ⊢; exact rest_block ha hl

end Blames

variable (stop : Position)

/-- The items of a statement and of what stands behind it. -/
theorem exists_items_of_statement {used : List Item} {ls ms : List Lexeme} {m : Mapping}
    (h : Statement ls m) (he : lexemesOf used = ls ++ ms) :
    ∃ (form : Form) (i : Item) (us vs : List Item), used = i :: (us ++ vs) ∧
      i.lexeme = .name form.name ∧ Statement (lexemesOf (i :: us)) m ∧ lexemesOf vs = ms := by
  obtain ⟨us, vs, rfl, rfl, hvs⟩ := List.map_eq_append_iff.1 he
  obtain ⟨form, ms, hw⟩ := exists_form_of_statement h
  obtain ⟨i, is, rfl, hi, -⟩ := List.map_eq_cons_iff.1 hw
  exact ⟨form, i, is, vs, rfl, hi, h, hvs⟩

theorem locates_layerBody :
    Locates stop (layerBody stop) (Rest .layer [.mark .closeBrace]) where
  inhabited := exists_rest _ _
  sound := by
    intro c c' b h
    fun_induction layerBody stop c generalizing b c' with
    | case1 | case3 | case4 => cases h
    | case2 c i is hi hb =>
      cases h
      exact ⟨[i], hi, [], by simp [hb], .none _⟩
    | case5 c i is hi hb entry c₁ hs hlt entries trailing c₂ hr ih =>
      cases h
      obtain ⟨us, hu, hus⟩ := (locates_statement stop .layer).sound hs
      obtain ⟨vs, hv, hvs⟩ := ih hr
      refine ⟨us ++ vs, by rw [hu, hv, List.append_assoc], ?_⟩
      rw [lexemesOf_append]
      exact hvs.statement hus
  complete := by
    rintro used ⟨bs, hbs, hg⟩ pending rest
    generalize hp : Place.layer = place at hg
    induction hg generalizing used pending with
    | none =>
      obtain ⟨i, rfl, hi⟩ := List.map_eq_singleton_iff.1 hbs
      rw [List.singleton_append, layerBody_cons, if_pos hi]
      exact ⟨_, _, rfl⟩
    | @statement place ls ms m h hs ih =>
      rw [List.append_assoc] at hbs
      obtain ⟨form, i, us, vs, rfl, hi, hm, hvs⟩ := exists_items_of_statement h hbs
      obtain ⟨e, p, he⟩ := (locates_statement stop .layer).complete ⟨m, hm⟩ pending (vs ++ rest)
      obtain ⟨b, q, hb⟩ := ih hvs p hp
      rw [List.cons_append] at he
      rw [List.cons_append, List.append_assoc, layerBody_cons, if_neg (by simp [hi]), he]
      exact ⟨_, _, by simp only [hb, Except.map]; rfl⟩
    | layer hn => exact absurd hp.symm hn
    | device => cases hp
  blames := by
    intro c e h
    fun_induction layerBody stop c with
    | case1 c hi =>
      cases h
      rw [hi]
      exact .behind (exists_rest _ _)
    | case2 | case5 => cases h
    | case3 c i is hi hb e hs =>
      cases h
      exact ((locates_statement stop .layer).blames_seq_left (exists_rest _ _) hs).statement hi
        (by simpa using hb) (fun _ => rfl) (fun _ => by simp)
    | case4 c i is hi hb entry c₁ hs hlt e hr ih =>
      cases h
      exact ((locates_statement stop .layer).blames_seq_right hs (ih hr)).statement hi
        (by simpa using hb) (fun _ => rfl) (fun _ => by simp)

theorem layer_eq_bind (position : Position) (comments : List String) :
    layer stop position comments = header stop "layer" >>= fun name =>
      layerBody stop >>= fun b => pure ⟨name, comments, b.1, b.2, position⟩ := by
  funext c
  simp only [layer, Bind.bind, StateT.bind, Except.bind]
  split <;> rename_i h <;> simp only [h]
  split <;> rename_i h <;> simp only [h]
  rfl

theorem locates_layer (position : Position) (comments : List String) :
    Locates stop (layer stop position comments) (Block "layer" .layer) := by
  rw [layer_eq_bind]
  exact (locates_header stop "layer").bind fun _ => (locates_layerBody stop).bind_pure _

theorem locates_deviceBody :
    Locates stop (deviceBody stop) (Rest .device [.mark .closeBrace]) where
  inhabited := exists_rest _ _
  sound := by
    intro c c' b h
    fun_induction deviceBody stop c generalizing b c' with
    | case1 | case3 | case4 | case6 | case7 => cases h
    | case2 c i is hi hb =>
      cases h
      exact ⟨[i], hi, [], by simp [hb], .none _⟩
    | case5 c i is hi hb hw l c₁ hs hlt entries layers trailing c₂ hr ih =>
      cases h
      obtain ⟨us, hu, hus⟩ := (locates_layer stop _ _).sound hs
      obtain ⟨vs, hv, hvs⟩ := ih hr
      simp only at hu
      refine ⟨i :: (us ++ vs), by simp [hi, hu, hv], ?_⟩
      rw [lexemesOf_cons, hw]
      exact (rest_block (.layer (by simp)) (by simp)).2
        ⟨_, _, lexemesOf_append us vs, hus, hvs⟩
    | case8 c i is hi hb hw entry c₁ hs hlt entries layers trailing c₂ hr ih =>
      cases h
      obtain ⟨us, hu, hus⟩ := (locates_statement stop .device).sound hs
      obtain ⟨vs, hv, hvs⟩ := ih hr
      refine ⟨us ++ vs, by rw [hu, hv, List.append_assoc], ?_⟩
      rw [lexemesOf_append]
      exact hvs.statement hus
  complete := by
    rintro used ⟨bs, hbs, hg⟩ pending rest
    generalize hp : Place.device = place at hg
    induction hg generalizing used pending with
    | none =>
      obtain ⟨i, rfl, hi⟩ := List.map_eq_singleton_iff.1 hbs
      rw [List.singleton_append, deviceBody_cons, if_pos hi]
      exact ⟨_, _, rfl⟩
    | @statement place ls ms m h hs ih =>
      rw [List.append_assoc] at hbs
      obtain ⟨form, i, us, vs, rfl, hi, hm, hvs⟩ := exists_items_of_statement h hbs
      obtain ⟨e, p, he⟩ := (locates_statement stop .device).complete ⟨m, hm⟩ pending (vs ++ rest)
      obtain ⟨b, q, hb⟩ := ih hvs p hp
      have hn : form.name ≠ "layer" := by cases form <;> decide
      rw [List.cons_append] at he
      rw [List.cons_append, List.append_assoc, deviceBody_cons, if_neg (by simp [hi]),
        if_neg (by simpa [hi] using hn), he]
      exact ⟨_, _, by simp only [hb, Except.map]; rfl⟩
    | @layer place hs bs ms name _ hh hb hms _ ih =>
      obtain ⟨name, raw⟩ := hh
      obtain ⟨i, is, rfl, hi, his⟩ := List.map_eq_cons_iff.1 hbs
      have hsplit : is.map (·.lexeme) =
          ([.mark .openParen, .quoted name raw, .mark .closeParen, .mark .openBrace] ++
            (bs ++ [.mark .closeBrace])) ++ (ms ++ [.mark .closeBrace]) := by
        simpa using his
      obtain ⟨us, vs, rfl, hus, hvs⟩ := List.map_eq_append_iff.1 hsplit
      have hblock : Block "layer" .layer (lexemesOf us) :=
        ⟨_, _, hus, ⟨name, .mk name raw⟩, bs, rfl, hb⟩
      obtain ⟨l, p, hl⟩ := (locates_layer stop i.position (pending ++ i.comments)).complete
        hblock [] (vs ++ rest)
      obtain ⟨b, q, hq⟩ := ih hvs p hp
      rw [List.cons_append, List.append_assoc, deviceBody_cons, if_neg (by simp [hi]), if_pos hi,
        hl]
      exact ⟨_, _, by simp only [hq, Except.map]; rfl⟩
    | device => cases hp
  blames := by
    intro c e h
    fun_induction deviceBody stop c with
    | case1 c hi =>
      cases h
      rw [hi]
      exact .behind (exists_rest _ _)
    | case2 | case5 | case8 => cases h
    | case3 c i is hi hb hw e hs =>
      cases h
      rw [hi]
      exact .block (.layer (by simp)) ((locates_layer stop _ _).blames_seq_left
        (exists_rest .device [.mark .closeBrace]) hs) hw (by simp [hw])
    | case4 c i is hi hb hw l c₁ hs hlt e hr ih =>
      cases h
      rw [hi]
      exact .block (.layer (by simp)) ((locates_layer stop _ _).blames_seq_right hs (ih hr)) hw
        (by simp [hw])
    | case6 c i is hi hb hw e hs =>
      cases h
      exact ((locates_statement stop .device).blames_seq_left (exists_rest _ _) hs).statement hi
        (by simpa using hb) (fun h => absurd h hw) (fun _ => by simp)
    | case7 c i is hi hb hw entry c₁ hs hlt e hr ih =>
      cases h
      exact ((locates_statement stop .device).blames_seq_right hs (ih hr)).statement hi
        (by simpa using hb) (fun h => absurd h hw) (fun _ => by simp)

theorem device_eq_bind (position : Position) (comments : List String) :
    device stop position comments = header stop "device" >>= fun pattern =>
      deviceBody stop >>= fun b =>
        pure ⟨pattern, comments, b.1, b.2.1, b.2.2, position⟩ := by
  funext c
  simp only [device, Bind.bind, StateT.bind, Except.bind]
  split <;> rename_i h <;> simp only [h]
  split <;> rename_i h <;> simp only [h]
  rfl

theorem locates_device (position : Position) (comments : List String) :
    Locates stop (device stop position comments) (Block "device" .device) := by
  rw [device_eq_bind]
  exact (locates_header stop "device").bind fun _ => (locates_deviceBody stop).bind_pure _

/-- A script that is not read is blamed for its first word that is wrong. -/
theorem blames_of_document {last : List String} {c : Cursor} {e : SyntaxError}
    (h : document stop last c = .error e) :
    Blames stop (Rest .topLevel []) c.items e.position := by
  fun_induction document stop last c with
  | case1 | case4 | case7 | case10 => cases h
  | case2 c i is hi hw e hs =>
    cases h
    rw [hi]
    exact .block .device ((locates_device stop _ _).blames_seq_left (exists_rest .topLevel []) hs)
      hw (by simp)
  | case3 c i is hi hw b c₁ hs hlt e hr ih =>
    cases h
    rw [hi]
    exact .block .device ((locates_device stop _ _).blames_seq_right hs (ih hr)) hw (by simp)
  | case5 c i is hi hw hw' e hs =>
    cases h
    rw [hi]
    exact .block (.layer (by simp))
      ((locates_layer stop _ _).blames_seq_left (exists_rest .topLevel []) hs) hw' (by simp)
  | case6 c i is hi hw hw' l c₁ hs hlt e hr ih =>
    cases h
    rw [hi]
    exact .block (.layer (by simp)) ((locates_layer stop _ _).blames_seq_right hs (ih hr)) hw'
      (by simp)
  | case8 c i is hi hw hw' e hs =>
    cases h
    exact ((locates_statement stop .topLevel).blames_seq_left (exists_rest _ _) hs).statement hi
      (by simp) (fun h => absurd h hw') (fun h => absurd h hw)
  | case9 c i is hi hw hw' entry c₁ hs hlt e hr ih =>
    cases h
    exact ((locates_statement stop .topLevel).blames_seq_right hs (ih hr)).statement hi
      (by simp) (fun h => absurd h hw') (fun h => absurd h hw)

theorem grammatical_of_statements {gs : List Token} {es : List Entry} (h : Statements gs es) :
    Grammatical .layer (gs.map (·.lexeme)) := by
  induction h with
  | none => exact .none _
  | more h _ ih =>
    obtain ⟨hm⟩ := h
    rw [List.map_append]
    exact .statement hm ih

theorem grammatical_of_layer {place : Place} (hp : place ≠ .layer) {ts us : List Token}
    {l : LayerBlock} (h : Layer ts l) (hs : Grammatical place (us.map (·.lexeme))) :
    Grammatical place ((ts ++ us).map (·.lexeme)) := by
  obtain ⟨hh, hb, hc⟩ := h
  have := Grammatical.layer hp hh (grammatical_of_statements hb) hs
  simpa [hc] using this

theorem grammatical_of_deviceItems {gs : List Token} {es : List Entry} {ls : List LayerBlock}
    (h : DeviceItems gs es ls) : Grammatical .device (gs.map (·.lexeme)) := by
  induction h with
  | none => exact .none _
  | statement h _ ih =>
    obtain ⟨hm⟩ := h
    rw [List.map_append]
    exact .statement hm ih
  | layer h _ ih => exact grammatical_of_layer (by simp) h ih

theorem grammatical_of_program {gs : List Token} {t : Document} (h : Program gs t) :
    Grammatical .topLevel (gs.map (·.lexeme)) := by
  induction h with
  | none => exact .none _
  | statement h _ ih =>
    obtain ⟨hm⟩ := h
    rw [List.map_append]
    exact .statement hm ih
  | layer h _ ih => exact grammatical_of_layer (by simp) h ih
  | device h _ ih =>
    obtain ⟨hh, hb, hc⟩ := h
    have := Grammatical.device hh (grammatical_of_deviceItems hb) ih
    simpa [hc] using this

/-- The words can be continued to a program of the grammar. -/
def Extendable (gs : List Token) : Prop := ∃ more t, Program (gs ++ more) t

theorem extendable_iff {gs : List Token} :
    Extendable gs ↔ Begins (Rest .topLevel []) (gs.map (·.lexeme)) := by
  constructor
  · rintro ⟨more, t, h⟩
    have := grammatical_of_program h
    exact ⟨more.map (·.lexeme), _, (List.append_nil _).symm, by rwa [List.map_append] at this⟩
  · rintro ⟨more, _, he, h⟩
    rw [List.append_nil] at he
    have hl : (gs ++ loose more).map (·.lexeme) = gs.map (·.lexeme) ++ more := by
      rw [List.map_append, lexeme_loose]
    obtain ⟨t, ht⟩ := h.exists_derives (hl.trans he)
    exact ⟨loose more, t, ht⟩

theorem Extendable.of_append {gs hs : List Token} (h : Extendable (gs ++ hs)) : Extendable gs := by
  obtain ⟨more, t, h⟩ := h
  exact ⟨hs ++ more, t, by rwa [List.append_assoc] at h⟩

/-- The items are the words with their places. -/
theorem map_ofTokens (ts : List Token) :
    (Item.ofTokens ts).1.map (fun i => (i.lexeme, i.position)) =
      (wordTokens ts).map fun t => (t.lexeme, t.position) := by
  induction ts with
  | nil => rfl
  | cons t ts ih =>
    cases ht : t.isComment with
    | false => rw [Item.ofTokens_word ht, wordTokens_word ht, List.map_cons, List.map_cons, ih]
    | true =>
      rw [wordTokens_comment ht, ← ih]
      cases hn : (Item.ofTokens ts).1 with
      | nil => rw [Item.ofTokens_comment_nil ht hn]
      | cons i is => rw [Item.ofTokens_comment_cons ht hn]; rfl

/-- What is blamed among the items, told of the words. -/
theorem blames_words {ts : List Token} {p : Position}
    (h : Blames stop (Rest .topLevel []) (Item.ofTokens ts).1 p) :
    (Extendable (wordTokens ts) ∧ p = stop) ∨ ∃ before t behind,
      wordTokens ts = before ++ t :: behind ∧ Extendable before ∧ ¬ Extendable (before ++ [t]) ∧
        p = t.position := by
  have hmap := map_ofTokens ts
  generalize (Item.ofTokens ts).1 = items at h hmap
  have hlexemes (is : List Item) (gs : List Token)
      (he : is.map (fun i => (i.lexeme, i.position)) = gs.map fun t => (t.lexeme, t.position)) :
      lexemesOf is = gs.map (·.lexeme) := by
    simpa [lexemesOf, Function.comp_def] using congrArg (List.map Prod.fst) he
  cases h with
  | behind h => exact .inl ⟨extendable_iff.2 (hlexemes _ _ hmap ▸ h), rfl⟩
  | @item used rest i h hn =>
    rw [List.map_append, List.map_cons, eq_comm] at hmap
    obtain ⟨before, gs, hw, hbefore, hgs⟩ := List.map_eq_append_iff.1 hmap
    obtain ⟨t, behind, rfl, ht, -⟩ := List.map_eq_cons_iff.1 hgs
    obtain ⟨hl, hp⟩ := Prod.mk.inj ht
    have hused := hlexemes _ _ hbefore.symm
    rw [hused] at h hn
    rw [← hl] at hn
    refine .inr ⟨before, t, behind, hw, extendable_iff.2 h, fun he => hn ?_, hp.symm⟩
    simpa using extendable_iff.1 he

/-- Words have no two places where they stop to be extendable. -/
theorem eq_of_split {before before' behind behind' : List Token} {t t' : Token}
    (he : before ++ t :: behind = before' ++ t' :: behind') (h : Extendable before)
    (hn : ¬ Extendable (before ++ [t])) (h' : Extendable before')
    (hn' : ¬ Extendable (before' ++ [t'])) : t = t' := by
  obtain ⟨xs, rfl, hx⟩ | ⟨xs, rfl, hx⟩ := List.append_eq_append_iff.1 he
  · cases xs with
    | nil => exact (List.cons.inj hx).1
    | cons x xs =>
      cases hx
      have hx : Extendable (before ++ [t] ++ xs) := by simpa using h'
      exact absurd hx.of_append hn
  · cases xs with
    | nil => exact (List.cons.inj hx).1.symm
    | cons x xs =>
      cases hx
      have hx : Extendable (before' ++ [t'] ++ xs) := by simpa using h
      exact absurd hx.of_append hn'

/-- A text within the limit that consists of tokens and is not read is blamed for the word up to
which its words cannot be continued to a program, though those in front of that word can. If there
is no such word, its words can be continued, but are no program, and the place behind the text is
blamed. -/
theorem position_of_read_error {limit : Nat} {source : String} {ts : List Token} {e : SyntaxError}
    (hl : source.utf8ByteSize ≤ limit) (ht : tokenize source.toList = .ok ts)
    (h : read limit source = .error e) :
    (∀ before t behind, wordTokens ts = before ++ t :: behind → Extendable before →
      ¬ Extendable (before ++ [t]) → e.position = t.position) ∧
    ((¬ ∃ before t behind, wordTokens ts = before ++ t :: behind ∧ Extendable before ∧
        ¬ Extendable (before ++ [t])) →
      Extendable (wordTokens ts) ∧ (¬ ∃ t, Program (wordTokens ts) t) ∧
        e.position = .behind source.toList) := by
  have hd : document (Position.start.after source.toList) (Item.ofTokens ts).2
      ⟨[], (Item.ofTokens ts).1⟩ = .error e := by
    simpa [read, hl, parse, ht, ofTokens] using h
  have hblames := blames_words _ (blames_of_document _ hd)
  rw [Position.after_start] at hblames
  constructor
  · intro before t behind hw hb hn
    obtain ⟨hall, -⟩ | ⟨before', t', behind', hw', hb', hn', hp⟩ := hblames
    · rw [hw, ← List.singleton_append, ← List.append_assoc] at hall
      exact absurd hall.of_append hn
    · rw [hp, eq_of_split (hw.symm.trans hw') hb hn hb' hn']
  · intro hno
    obtain ⟨hall, hp⟩ | ⟨before, t, behind, hw, hb, hn, -⟩ := hblames
    · refine ⟨hall, ?_, hp⟩
      rintro ⟨t, hprogram⟩
      obtain ⟨d, hsays, -⟩ := exists_says_of_program hprogram rfl []
      have hread := read_eq_ok_iff.2 ⟨hl, parse_eq_ok_iff.2 ⟨ts, ht, hsays⟩⟩
      rw [h] at hread
      cases hread
    · exact absurd ⟨before, t, behind, hw, hb, hn⟩ hno

/-- A comma is missing, and a comment stands in its place. -/
theorem position_of_read_error_of_missing_comma :
    ∃ source ts e, tokenize source.toList = .ok ts ∧ read 64 source = .error e ∧
      e.position = ⟨1, 18⟩ ∧
      (∀ before t behind, wordTokens ts = before ++ t :: behind → Extendable before →
        ¬ Extendable (before ++ [t]) → e.position = t.position) ∧
      ((¬ ∃ before t behind, wordTokens ts = before ++ t :: behind ∧ Extendable before ∧
          ¬ Extendable (before ++ [t])) →
        Extendable (wordTokens ts) ∧ (¬ ∃ t, Program (wordTokens ts) t) ∧
          e.position = .behind source.toList) := by
  have hr : read 64 "map(\"A\" /* or */ \"B\");" =
      .error ⟨⟨1, 18⟩, .unexpected (.mark .comma) (.quoted "B" "\"B\"")⟩ := by decide +kernel
  have ht : tokenize "map(\"A\" /* or */ \"B\");".toList = .ok
      [⟨.name "map", ⟨1, 1⟩, 1⟩, ⟨.mark .openParen, ⟨1, 4⟩, 1⟩, ⟨.quoted "A" "\"A\"", ⟨1, 5⟩, 1⟩,
        ⟨.blockComment "/* or */", ⟨1, 9⟩, 1⟩, ⟨.quoted "B" "\"B\"", ⟨1, 18⟩, 1⟩,
        ⟨.mark .closeParen, ⟨1, 21⟩, 1⟩, ⟨.mark .semicolon, ⟨1, 22⟩, 1⟩] := by decide +kernel
  exact ⟨_, _, _, ht, hr, rfl, position_of_read_error (by decide) ht hr⟩

end KeyRemap.Script
