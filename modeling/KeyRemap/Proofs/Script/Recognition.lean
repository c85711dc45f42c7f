import KeyRemap.Proofs.Script.Grammar
import KeyRemap.Script.Statement

/-!
# What the steps of the reader recognize

A step of the reader recognizes a relation between sequences of lexemes and values if it succeeds
just on the sequences that the relation has, gives their values, takes no item more and lets all
comments on the way wait. Steps in sequence recognize sequences of what they recognize
(`Recognizes.bind`), so calls and headers are read as the grammar has them
(`recognizes_call`, `recognizes_header`).
-/
namespace KeyRemap.Script

/-- The comments of items. -/
def commentsOf (items : List Item) : List String := items.flatMap (·.comments)

/-- The lexemes of items. -/
def lexemesOf (items : List Item) : List Lexeme := items.map (·.lexeme)

@[simp] theorem commentsOf_nil : commentsOf [] = [] := rfl

@[simp] theorem commentsOf_cons (i : Item) (is : List Item) :
    commentsOf (i :: is) = i.comments ++ commentsOf is := rfl

@[simp] theorem commentsOf_append (is js : List Item) :
    commentsOf (is ++ js) = commentsOf is ++ commentsOf js := by
  simp [commentsOf]

@[simp] theorem lexemesOf_nil : lexemesOf [] = [] := rfl

@[simp] theorem lexemesOf_cons (i : Item) (is : List Item) :
    lexemesOf (i :: is) = i.lexeme :: lexemesOf is := rfl

@[simp] theorem lexemesOf_append (is js : List Item) :
    lexemesOf (is ++ js) = lexemesOf is ++ lexemesOf js := by
  simp [lexemesOf]

/-- The step succeeds just on the sequences of lexemes that `rule` has, with their values. -/
structure Recognizes {α : Type} (m : Reader α) (rule : List Lexeme → α → Prop) : Prop where
  sound : ∀ {c c' : Cursor} {a : α}, m c = .ok (a, c') → ∃ used, c.items = used ++ c'.items ∧
    c'.pending = c.pending ++ commentsOf used ∧ rule (lexemesOf used) a
  complete : ∀ {used : List Item} {a : α}, rule (lexemesOf used) a → ∀ pending rest,
    m ⟨pending, used ++ rest⟩ = .ok (a, ⟨pending ++ commentsOf used, rest⟩)

namespace Recognizes

variable {α β : Type}

theorem congr {m : Reader α} {rule rule' : List Lexeme → α → Prop} (h : Recognizes m rule)
    (he : ∀ ls a, rule ls a ↔ rule' ls a) : Recognizes m rule' := by
  obtain rfl : rule = rule' := funext fun ls => funext fun a => propext (he ls a)
  exact h

theorem pure (a : α) : Recognizes (Pure.pure a) fun ls b => ls = [] ∧ b = a where
  sound h := by
    cases h
    exact ⟨[], by simp, by simp, rfl, rfl⟩
  complete h pending rest := by
    obtain ⟨hu, rfl⟩ := h
    obtain rfl := List.map_eq_nil_iff.1 hu
    rw [commentsOf_nil, List.append_nil]
    rfl

theorem bind {m : Reader α} {f : α → Reader β} {rule : List Lexeme → α → Prop}
    {rules : α → List Lexeme → β → Prop} (hm : Recognizes m rule)
    (hf : ∀ a, Recognizes (f a) (rules a)) :
    Recognizes (m >>= f) fun ls b =>
      ∃ ms ns a, ls = ms ++ ns ∧ rule ms a ∧ rules a ns b where
  sound := by
    intro c c' b h
    simp only [Bind.bind, StateT.bind] at h
    cases hx : m c with
    | error e => simp [hx, Except.bind] at h
    | ok r =>
      obtain ⟨a, c₁⟩ := r
      simp only [hx, Except.bind] at h
      obtain ⟨us, hi, hp, hr⟩ := hm.sound hx
      obtain ⟨vs, hi', hp', hr'⟩ := (hf a).sound h
      refine ⟨us ++ vs, by rw [hi, hi', List.append_assoc], ?_, _, _, a, lexemesOf_append us vs,
        hr, hr'⟩
      rw [hp', hp, commentsOf_append, List.append_assoc]
  complete := by
    rintro used b ⟨ms, ns, a, he, hr, hr'⟩ pending rest
    obtain ⟨us, vs, rfl, rfl, rfl⟩ := List.map_eq_append_iff.1 he
    have h₁ := hm.complete hr pending (vs ++ rest)
    have h₂ := (hf a).complete hr' (pending ++ commentsOf us) rest
    simp only [Bind.bind, StateT.bind, List.append_assoc, h₁, Except.bind, h₂, commentsOf_append]

/-- A step that takes one lexeme of a kind, in front of others; `kind value raw` is the lexeme of a
value that is spelled `raw`. -/
theorem bind_value {m : Reader α} {f : α → Reader β} {kind : α → String → Lexeme}
    {rules : α → List Lexeme → β → Prop}
    (hm : Recognizes m fun ls value => ∃ raw, ls = [kind value raw])
    (hf : ∀ value, Recognizes (f value) (rules value)) :
    Recognizes (m >>= f) fun ls b =>
      ∃ value raw ms, ls = kind value raw :: ms ∧ rules value ms b := by
  refine (hm.bind hf).congr fun ls b => ⟨?_, ?_⟩
  · rintro ⟨_, ms, value, rfl, ⟨raw, rfl⟩, h⟩
    exact ⟨value, raw, ms, rfl, h⟩
  · rintro ⟨value, raw, ms, rfl, h⟩
    exact ⟨[kind value raw], ms, value, rfl, ⟨raw, rfl⟩, h⟩

/-- A step that takes one certain lexeme, in front of others. -/
theorem bind_lexeme {m : Reader Unit} {f : Unit → Reader β} {l : Lexeme}
    {rule : List Lexeme → β → Prop} (hm : Recognizes m fun ls _ => ls = [l])
    (hf : ∀ u, Recognizes (f u) rule) :
    Recognizes (m >>= f) fun ls b => ∃ ms, ls = l :: ms ∧ rule ms b := by
  refine (hm.bind hf).congr fun ls b => ⟨?_, ?_⟩
  · rintro ⟨_, ms, _, rfl, rfl, h⟩
    exact ⟨ms, rfl, h⟩
  · rintro ⟨ms, rfl, h⟩
    exact ⟨[l], ms, (), rfl, rfl, h⟩

end Recognizes

variable (stop : Position)

theorem recognizes_take {α : Type} (expected : Expected) (accept : Lexeme → Except SyntaxFault α) :
    Recognizes (take stop expected accept) fun ls a => ∃ l, ls = [l] ∧ accept l = .ok a where
  sound := by
    intro c c' a h
    unfold take at h
    split at h
    · cases h
    · rename_i i is hi
      split at h
      · cases h
      · rename_i b hb
        cases h
        exact ⟨[i], by simp [hi], by simp, i.lexeme, rfl, hb⟩
  complete := by
    rintro used a ⟨l, hl, ha⟩ pending rest
    obtain ⟨i, rfl, rfl⟩ := List.map_eq_singleton_iff.1 hl
    simp [take, ha]

/-- A step that accepts the lexemes of a kind takes one of them. -/
theorem recognizes_value {α : Type} {kind : α → String → Lexeme} (expected : Expected)
    {accept : Lexeme → Except SyntaxFault α}
    (h : ∀ l value, accept l = .ok value ↔ ∃ raw, l = kind value raw) :
    Recognizes (take stop expected accept) fun ls value => ∃ raw, ls = [kind value raw] := by
  refine (recognizes_take stop expected accept).congr fun ls value => ?_
  simp only [h]
  constructor
  · rintro ⟨l, rfl, raw, rfl⟩
    exact ⟨raw, rfl⟩
  · rintro ⟨raw, rfl⟩
    exact ⟨_, rfl, raw, rfl⟩

/-- A step that accepts one lexeme takes it. -/
theorem recognizes_lexeme {l : Lexeme} (expected : Expected)
    {accept : Lexeme → Except SyntaxFault Unit} (h : ∀ l' u, accept l' = .ok u ↔ l' = l) :
    Recognizes (take stop expected accept) fun ls _ => ls = [l] := by
  refine (recognizes_take stop expected accept).congr fun ls u => ?_
  simp [h]

theorem acceptMark_eq_ok (m : Mark) (l : Lexeme) (u : Unit) :
    acceptMark m l = .ok u ↔ l = .mark m := by
  unfold acceptMark
  split <;> simp [*]

theorem acceptSeparator_eq_ok (form : Form) (l : Lexeme) (u : Unit) :
    acceptSeparator form l = .ok u ↔ l = .mark .comma := by
  unfold acceptSeparator
  split <;> simp_all

theorem acceptClose_eq_ok (form : Form) (l : Lexeme) (u : Unit) :
    acceptClose form l = .ok u ↔ l = .mark .closeParen := by
  unfold acceptClose
  split <;> simp_all

theorem acceptString_eq_ok (function : String) (l : Lexeme) (value : String) :
    acceptString function l = .ok value ↔ ∃ raw, l = .quoted value raw := by
  cases l <;> simp [acceptString]

theorem acceptTimeout_eq_ok (l : Lexeme) (value : Int) :
    acceptTimeout l = .ok value ↔ ∃ raw, l = .number value raw := by
  cases l <;> simp [acceptTimeout]

theorem acceptFirstKey_eq_ok (l : Lexeme) (key : String) :
    acceptFirstKey l = .ok key ↔ ∃ raw, l = .quoted key raw := by
  unfold acceptFirstKey
  split
  · simp
  · exact acceptString_eq_ok _ _ _

theorem recognizes_mark (m : Mark) : Recognizes (mark stop m) fun ls _ => ls = [.mark m] :=
  recognizes_lexeme stop _ (acceptMark_eq_ok m)

theorem recognizes_separator (form : Form) :
    Recognizes (separator stop form) fun ls _ => ls = [.mark .comma] :=
  recognizes_lexeme stop _ (acceptSeparator_eq_ok form)

theorem recognizes_close (form : Form) :
    Recognizes (close stop form) fun ls _ => ls = [.mark .closeParen] :=
  recognizes_lexeme stop _ (acceptClose_eq_ok form)

theorem recognizes_string (function : String) :
    Recognizes (string stop function) fun ls value => ∃ raw, ls = [.quoted value raw] :=
  recognizes_value stop _ (acceptString_eq_ok function)

theorem recognizes_timeout : Recognizes (take stop .timeout acceptTimeout) fun ls value =>
    ∃ raw, ls = [.number value raw] :=
  recognizes_value stop _ acceptTimeout_eq_ok

theorem recognizes_firstKey :
    Recognizes (take stop (.string Form.sequence.name) acceptFirstKey) fun ls key =>
      ∃ raw, ls = [.quoted key raw] :=
  recognizes_value stop _ acceptFirstKey_eq_ok

/-- What stands behind the first key of a list, closing bracket included. -/
inductive KeysBehind : List Lexeme → List String → Prop
  | close : KeysBehind [.mark .closeBracket] []
  | comma : KeysBehind [.mark .comma, .mark .closeBracket] []
  | key (key raw : String) {ls : List Lexeme} {keys : List String} (h : KeysBehind ls keys) :
    KeysBehind (.mark .comma :: .quoted key raw :: ls) (key :: keys)

/-- A key and what stands behind it are a list of the grammar, its comma and its bracket. -/
theorem keysBehind_iff (key raw : String) {ls : List Lexeme} {keys : List String} :
    KeysBehind ls keys ↔ ∃ ms comma, Grammar.Keys ms (key :: keys) ∧
      (comma = [] ∨ comma = [.mark .comma]) ∧
      .quoted key raw :: ls = ms ++ comma ++ [.mark .closeBracket] := by
  constructor
  · intro h
    induction h generalizing key raw with
    | close => exact ⟨_, [], .one key raw, .inl rfl, rfl⟩
    | comma => exact ⟨_, [.mark .comma], .one key raw, .inr rfl, rfl⟩
    | key key' raw' h ih =>
      obtain ⟨ms, comma, hk, hc, he⟩ := ih key' raw'
      exact ⟨_, comma, .more key raw hk, hc, by rw [he]; rfl⟩
  · rintro ⟨ms, comma, hk, hc, he⟩
    generalize hks : key :: keys = all at hk
    induction hk generalizing key raw keys ls with
    | one key' raw' =>
      cases hks
      rcases hc with rfl | rfl
      · cases he
        exact .close
      · cases he
        exact .comma
    | more key' raw' hk ih =>
      cases hks
      cases he
      cases hk with
      | one key'' raw'' => exact .key _ _ (ih _ _ rfl rfl)
      | more key'' raw'' hk => exact .key _ _ (ih _ _ rfl rfl)

theorem recognizes_moreKeys : Recognizes (moreKeys stop) KeysBehind where
  sound := by
    intro c c' keys h
    unfold moreKeys at h
    obtain ⟨pending, items⟩ := c
    simp only at h ⊢
    fun_induction keysAfter stop pending items generalizing keys c' with
    | case1 | case3 | case5 | case8 => cases h
    | case6 => cases h
    | case2 pending i is hi =>
      cases h
      exact ⟨[i], rfl, by simp, by simpa [hi] using .close⟩
    | case4 pending i hb hc k ks hk =>
      cases h
      exact ⟨[i, k], rfl, by simp, by simpa [hc, hk] using .comma⟩
    | case7 pending i hb hc k ks hk key ha keys' c₁ hr ih =>
      cases h
      obtain ⟨used, hu, hp, hl⟩ := ih hr
      obtain ⟨raw, hq⟩ := (acceptString_eq_ok _ _ _).1 ha
      refine ⟨i :: k :: used, by simp [hu], by simp [hp], ?_⟩
      simpa [hc, hq] using .key key raw hl
  complete := by
    intro used keys h pending rest
    unfold moreKeys
    simp only
    generalize hl : lexemesOf used = ls at h
    induction h generalizing used pending with
    | close =>
      obtain ⟨i, rfl, hi⟩ := List.map_eq_singleton_iff.1 hl
      rw [keysAfter.eq_def]
      simp [hi]
    | comma =>
      obtain ⟨i, is, rfl, hi, his⟩ := List.map_eq_cons_iff.1 hl
      obtain ⟨k, rfl, hk⟩ := List.map_eq_singleton_iff.1 his
      rw [List.cons_append, List.cons_append, keysAfter]
      simp [hi, hk]
    | key key raw h ih =>
      obtain ⟨i, is, rfl, hi, his⟩ := List.map_eq_cons_iff.1 hl
      obtain ⟨k, ks, rfl, hk, hks⟩ := List.map_eq_cons_iff.1 his
      have := ih (pending ++ i.comments ++ k.comments) hks
      rw [List.cons_append, List.cons_append, keysAfter]
      rw [List.append_assoc pending] at this
      simp [hi, hk, acceptString, this]

theorem recognizes_map : Recognizes (arguments stop .map) fun ls m =>
    Grammar.Call (.name Form.map.name :: ls) m := by
  have h := (recognizes_mark stop .openParen).bind_lexeme fun _ =>
    (recognizes_string stop Form.map.name).bind_value fun source =>
    (recognizes_separator stop .map).bind_lexeme fun _ =>
    (recognizes_string stop Form.map.name).bind_value fun target =>
    (recognizes_close stop .map).bind_lexeme fun _ => .pure (Mapping.simple source target)
  refine Recognizes.congr h fun ls m => ⟨?_, fun h => ?_⟩
  · rintro ⟨_, rfl, source, a, _, rfl, _, rfl, target, b, _, rfl, _, rfl, rfl, rfl⟩
    exact .map source target a b
  · generalize hw : Lexeme.name Form.map.name :: ls = ws at h
    cases h with
    | map source target a b =>
      obtain rfl := (List.cons.inj hw).2
      exact ⟨_, rfl, source, a, _, rfl, _, rfl, target, b, _, rfl, _, rfl, rfl, rfl⟩
    | _ => simp [Form.name] at hw

theorem recognizes_layerSwitch : Recognizes (arguments stop .layerSwitch) fun ls m =>
    Grammar.Call (.name Form.layerSwitch.name :: ls) m := by
  have h := (recognizes_mark stop .openParen).bind_lexeme fun _ =>
    (recognizes_string stop Form.layerSwitch.name).bind_value fun source =>
    (recognizes_separator stop .layerSwitch).bind_lexeme fun _ =>
    (recognizes_string stop Form.layerSwitch.name).bind_value fun layer =>
    (recognizes_close stop .layerSwitch).bind_lexeme fun _ =>
    .pure (Mapping.layerSwitch source layer)
  refine Recognizes.congr h fun ls m => ⟨?_, fun h => ?_⟩
  · rintro ⟨_, rfl, source, a, _, rfl, _, rfl, layer, b, _, rfl, _, rfl, rfl, rfl⟩
    exact .layerSwitch source layer a b
  · generalize hw : Lexeme.name Form.layerSwitch.name :: ls = ws at h
    cases h with
    | layerSwitch source layer a b =>
      obtain rfl := (List.cons.inj hw).2
      exact ⟨_, rfl, source, a, _, rfl, _, rfl, layer, b, _, rfl, _, rfl, rfl, rfl⟩
    | _ => simp [Form.name] at hw

theorem recognizes_tapHold : Recognizes (arguments stop .tapHold) fun ls m =>
    Grammar.Call (.name Form.tapHold.name :: ls) m := by
  have h := (recognizes_mark stop .openParen).bind_lexeme fun _ =>
    (recognizes_string stop Form.tapHold.name).bind_value fun source =>
    (recognizes_separator stop .tapHold).bind_lexeme fun _ =>
    (recognizes_string stop Form.tapHold.name).bind_value fun tap =>
    (recognizes_separator stop .tapHold).bind_lexeme fun _ =>
    (recognizes_string stop Form.tapHold.name).bind_value fun hold =>
    (recognizes_separator stop .tapHold).bind_lexeme fun _ =>
    (recognizes_timeout stop).bind_value fun timeout =>
    (recognizes_close stop .tapHold).bind_lexeme fun _ =>
    .pure (Mapping.tapHold source tap hold timeout)
  refine Recognizes.congr h fun ls m => ⟨?_, fun h => ?_⟩
  · rintro ⟨_, rfl, source, a, _, rfl, _, rfl, tap, b, _, rfl, _, rfl, hold, c, _, rfl, _, rfl,
      timeout, d, _, rfl, _, rfl, rfl, rfl⟩
    exact .tapHold source tap hold timeout a b c d
  · generalize hw : Lexeme.name Form.tapHold.name :: ls = ws at h
    cases h with
    | tapHold source tap hold timeout a b c d =>
      obtain rfl := (List.cons.inj hw).2
      exact ⟨_, rfl, source, a, _, rfl, _, rfl, tap, b, _, rfl, _, rfl, hold, c, _, rfl, _, rfl,
        timeout, d, _, rfl, _, rfl, rfl, rfl⟩
    | _ => simp [Form.name] at hw

theorem recognizes_sequence : Recognizes (arguments stop .sequence) fun ls m =>
    Grammar.Call (.name Form.sequence.name :: ls) m := by
  have h := (recognizes_mark stop .openParen).bind_lexeme fun _ =>
    (recognizes_string stop Form.sequence.name).bind_value fun source =>
    (recognizes_separator stop .sequence).bind_lexeme fun _ =>
    (recognizes_mark stop .openBracket).bind_lexeme fun _ =>
    (recognizes_firstKey stop).bind_value fun key =>
    (recognizes_moreKeys stop).bind fun keys =>
    (recognizes_close stop .sequence).bind_lexeme fun _ =>
    .pure (Mapping.sequence source (key :: keys))
  refine Recognizes.congr h fun ls m => ⟨?_, fun h => ?_⟩
  · rintro ⟨_, rfl, source, a, _, rfl, _, rfl, _, rfl, key, b, _, rfl, ls, _, keys, rfl, hk,
      _, rfl, rfl, rfl⟩
    obtain ⟨ms, comma, hm, hc, he⟩ := (keysBehind_iff key b).1 hk
    have hw := congrArg (· ++ [Lexeme.mark .closeParen]) he
    simp only [List.cons_append, List.append_assoc, List.nil_append] at hw
    have := Grammar.Call.sequence source a hm hc
    simp only [List.cons_append, List.append_assoc, List.nil_append] at this ⊢
    rwa [hw]
  · generalize hw : Lexeme.name Form.sequence.name :: ls = ws at h
    cases h with
    | @sequence source a ms keys hm comma hc =>
      obtain rfl := (List.cons.inj hw).2
      obtain ⟨key, b, ms, keys, rfl, rfl⟩ := hm.exists_cons
      have hk := (keysBehind_iff key b).2 ⟨_, comma, hm, hc, rfl⟩
      exact ⟨_, rfl, source, a, _, rfl, _, rfl, _, rfl, key, b, _, rfl, _, _, keys, by simp, hk,
        _, rfl, rfl, rfl⟩
    | _ => simp [Form.name] at hw

/-- The arguments of a call are read as the grammar has them. -/
theorem recognizes_arguments (form : Form) :
    Recognizes (arguments stop form) fun ls m => Grammar.Call (.name form.name :: ls) m := by
  cases form with
  | map => exact recognizes_map stop
  | tapHold => exact recognizes_tapHold stop
  | sequence => exact recognizes_sequence stop
  | layerSwitch => exact recognizes_layerSwitch stop

/-- A call behind its first word, with its semicolon. -/
theorem recognizes_call (form : Form) :
    Recognizes (call stop form) fun ls m =>
      ∃ ms, Grammar.Call (.name form.name :: ms) m ∧ ls = ms ++ [.mark .semicolon] := by
  refine ((recognizes_arguments stop form).bind fun m =>
    (recognizes_mark stop _).bind_lexeme fun _ => .pure m).congr fun ls m => ⟨?_, ?_⟩
  · rintro ⟨ms, _, m, rfl, h, _, rfl, rfl, rfl⟩
    exact ⟨ms, h, rfl⟩
  · rintro ⟨ms, h, rfl⟩
    exact ⟨ms, _, m, rfl, h, _, rfl, rfl, rfl⟩

/-- A header behind its first word. -/
theorem recognizes_header (word : String) :
    Recognizes (header stop word) fun ls name =>
      Grammar.Header word (.name word :: ls) name := by
  refine ((recognizes_mark stop _).bind_lexeme fun _ =>
    (recognizes_string stop _).bind_value fun name =>
    (recognizes_mark stop _).bind_lexeme fun _ =>
    (recognizes_mark stop _).bind_lexeme fun _ => .pure name).congr fun ls name => ⟨?_, ?_⟩
  · rintro ⟨_, rfl, name, raw, _, rfl, _, rfl, _, rfl, rfl, rfl⟩
    exact .mk name raw
  · rintro ⟨name, raw⟩
    exact ⟨_, rfl, name, raw, _, rfl, _, rfl, _, rfl, rfl, rfl⟩

theorem acceptForm_eq_ok {place : Place} {l : Lexeme} {form : Form} :
    acceptForm place l = .ok form ↔ l = .name form.name := by
  constructor
  · intro h
    unfold acceptForm at h
    split at h
    · rename_i word
      split at h
      · rename_i form' hf
        cases h
        have := List.find?_some hf
        simp only [decide_eq_true_eq] at this
        rw [this]
      · split at h; · cases h
        split at h <;> cases h
    · cases h
    · cases h
  · rintro rfl
    simp [acceptForm]

/-- Every call begins with the name of a function. -/
theorem exists_form_of_call {ls : List Lexeme} {m : Mapping} (h : Grammar.Call ls m) :
    ∃ (form : Form) (ms : List Lexeme), ls = .name form.name :: ms := by
  cases h with
  | map => exact ⟨.map, _, rfl⟩
  | tapHold => exact ⟨.tapHold, _, rfl⟩
  | sequence => exact ⟨.sequence, _, rfl⟩
  | layerSwitch => exact ⟨.layerSwitch, _, rfl⟩

/-- A statement that was read is one of the grammar, under the comments that waited and those of
its first item. The comments inside it wait for what comes next. -/
theorem statement_sound {place : Place} {c c' : Cursor} {e : Entry}
    (h : statement stop place c = .ok (e, c')) : ∃ i used m, c.items = i :: used ++ c'.items ∧
      c'.pending = commentsOf used ∧ e = ⟨m, c.pending ++ i.comments, i.position⟩ ∧
      Grammar.Statement (lexemesOf (i :: used)) m := by
  unfold statement at h
  split at h
  · cases h
  · rename_i i is hi
    split at h
    · cases h
    · rename_i form hf
      split at h
      · cases h
      · rename_i m c₁ hc
        cases h
        obtain ⟨used, hu, hp, ms, hm, hl⟩ := (recognizes_call stop form).sound hc
        refine ⟨i, used, m, hi.trans (congrArg (i :: ·) hu), by simpa using hp, rfl, ?_⟩
        rw [lexemesOf_cons, hl, acceptForm_eq_ok.1 hf]
        exact .mk hm

/-- A statement of the grammar is read wherever it stands. -/
theorem statement_complete {i : Item} {used : List Item} {m : Mapping}
    (h : Grammar.Statement (lexemesOf (i :: used)) m) (place : Place) (pending : List String)
    (rest : List Item) :
    statement stop place ⟨pending, i :: used ++ rest⟩ =
      .ok (⟨m, pending ++ i.comments, i.position⟩, ⟨commentsOf used, rest⟩) := by
  rw [lexemesOf_cons] at h
  generalize hw : i.lexeme :: lexemesOf used = ws at h
  obtain ⟨hm⟩ := h
  obtain ⟨form, ms, rfl⟩ := exists_form_of_call hm
  obtain ⟨hi, hu⟩ := List.cons.inj hw
  have hc : call stop form ⟨[], used ++ rest⟩ = .ok (m, ⟨commentsOf used, rest⟩) :=
    (recognizes_call stop form).complete ⟨ms, hm, hu⟩ [] rest
  simp [statement, acceptForm_eq_ok.2 hi, hc]

end KeyRemap.Script
