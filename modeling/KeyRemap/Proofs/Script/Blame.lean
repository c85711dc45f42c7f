import KeyRemap.Proofs.Script.Content

/-!
# What a step of the reader blames

A step of the reader that fails blames the first item behind which nothing could make up for it: no
sequence that the step recognizes begins with the items up to that one, though some begin with those
in front of it. If there is no such item, it blames the place behind the text (`Blames`). Steps in
sequence keep this up, because what a step has taken is all that it could take there
(`Locates.eq_of_append_eq`). So it holds of calls and headers (`locates_call`, `locates_header`).
-/
namespace KeyRemap.Script

/-- The lexemes begin a sequence of the rule. -/
def Begins (rule : List Lexeme → Prop) (ls : List Lexeme) : Prop := ∃ more, rule (ls ++ more)

/-- A sequence of one rule behind a sequence of another. -/
def Seq (rule rule' : List Lexeme → Prop) (ls : List Lexeme) : Prop :=
  ∃ ms ns, ls = ms ++ ns ∧ rule ms ∧ rule' ns

theorem Begins.seq {rule rule' : List Lexeme → Prop} {ls : List Lexeme} (h : Begins rule ls)
    (hr : ∃ ns, rule' ns) : Begins (Seq rule rule') ls := by
  obtain ⟨more, h⟩ := h
  obtain ⟨ns, hn⟩ := hr
  exact ⟨more ++ ns, _, ns, (List.append_assoc ls more ns).symm, h, hn⟩

/-- The place that is blamed: that of the first item that no sequence of the rule has there, or that
behind the text. -/
inductive Blames (stop : Position) (rule : List Lexeme → Prop) : List Item → Position → Prop
  | behind {items : List Item} (h : Begins rule (lexemesOf items)) : Blames stop rule items stop
  | item (used : List Item) {rest : List Item} {i : Item} (h : Begins rule (lexemesOf used))
    (hn : ¬ Begins rule (lexemesOf used ++ [i.lexeme])) :
    Blames stop rule (used ++ i :: rest) i.position

/-- Where rules begin alike, they blame alike. -/
theorem Blames.transfer {stop p : Position} {rule rule' : List Lexeme → Prop}
    {items : List Item} (h : Blames stop rule items p) (front : List Item)
    (he : ∀ used rest, items = used ++ rest →
      (Begins rule' (lexemesOf (front ++ used)) ↔ Begins rule (lexemesOf used))) :
    Blames stop rule' (front ++ items) p := by
  cases h with
  | behind h => exact .behind ((he items [] (List.append_nil _).symm).2 h)
  | @item used rest i h hn =>
    rw [← List.append_assoc]
    refine .item _ ((he used (i :: rest) rfl).2 h) fun hb => hn ?_
    have := (he (used ++ [i]) rest (by simp)).1 (by simpa using hb)
    simpa using this

/-- Rules that have the same behind a first word blame alike. -/
theorem Blames.cons {stop p : Position} {rule rule' : List Lexeme → Prop} {i : Item}
    {is : List Item} (h : Blames stop rule (i :: is) p) (hr : ∃ ls, rule ls)
    (hr' : ∃ ls, rule' ls)
    (he : ∀ ls, rule' (i.lexeme :: ls) ↔ rule (i.lexeme :: ls)) :
    Blames stop rule' (i :: is) p := by
  refine h.transfer [] fun used rest hu => ?_
  cases used with
  | nil => exact iff_of_true hr' hr
  | cons j used =>
    cases hu
    simp [Begins, he]

/-- A rule whose sequences begin with a word blames what a rule for the rest does. -/
theorem Blames.behind_word {stop p : Position} {rule rule' : List Lexeme → Prop} {i : Item}
    {is : List Item} (h : Blames stop rule is p)
    (he : ∀ ls, rule' (i.lexeme :: ls) ↔ rule ls) : Blames stop rule' (i :: is) p :=
  h.transfer [i] fun used _ _ => by simp [Begins, he]

/-- Items with the lexemes. -/
def itemsOf (ls : List Lexeme) : List Item := ls.map fun l => ⟨[], l, {}⟩

@[simp] theorem lexemesOf_itemsOf (ls : List Lexeme) : lexemesOf (itemsOf ls) = ls := by
  rw [lexemesOf, itemsOf, List.map_map]
  exact List.map_id ls

/-- The step takes the sequences of the rule, whatever stands behind them, and blames the first item
that no sequence of the rule has there. -/
structure Locates {α : Type} (stop : Position) (m : Reader α) (rule : List Lexeme → Prop) :
    Prop where
  inhabited : ∃ ls, rule ls
  sound : ∀ {c c' : Cursor} {a : α}, m c = .ok (a, c') →
    ∃ used, c.items = used ++ c'.items ∧ rule (lexemesOf used)
  complete : ∀ {used : List Item}, rule (lexemesOf used) → ∀ pending rest,
    ∃ a pending', m ⟨pending, used ++ rest⟩ = .ok (a, ⟨pending', rest⟩)
  blames : ∀ {c : Cursor} {e : SyntaxError}, m c = .error e →
    Blames stop rule c.items e.position

namespace Locates

variable {α β : Type} {stop : Position} {m : Reader α} {rule rule' : List Lexeme → Prop}

theorem congr (h : Locates stop m rule) (he : ∀ ls, rule ls ↔ rule' ls) :
    Locates stop m rule' := by
  obtain rfl : rule = rule' := funext fun ls => propext (he ls)
  exact h

theorem complete_itemsOf (h : Locates stop m rule) {ls : List Lexeme} (hl : rule ls)
    (rest : List Item) : ∃ a pending, m ⟨[], itemsOf ls ++ rest⟩ = .ok (a, ⟨pending, rest⟩) :=
  h.complete (by rwa [lexemesOf_itemsOf]) [] rest

/-- What is said of a step with one rule holds of it with that which it recognizes. -/
theorem of_recognizes {values : List Lexeme → α → Prop} (h : Locates stop m rule)
    (hr : Recognizes m values) : Locates stop m fun ls => ∃ a, values ls a := by
  refine h.congr fun ls => ⟨fun hl => ?_, fun ⟨a, ha⟩ => ?_⟩
  · obtain ⟨a, pending, hm⟩ := h.complete_itemsOf hl []
    obtain ⟨used, hu, -, hv⟩ := hr.sound hm
    simp only [List.append_nil] at hu
    exact ⟨a, by simpa [← hu] using hv⟩
  · have hv : values (lexemesOf (itemsOf ls)) a := by rwa [lexemesOf_itemsOf]
    have hm := hr.complete hv [] []
    obtain ⟨used, hu, hl⟩ := h.sound hm
    simp only [List.append_nil] at hu
    simpa [← hu] using hl

/-- The step cannot stop at different places of one text. -/
theorem eq_of_append_eq (h : Locates stop m rule) {ls ms xs ys : List Lexeme} (hl : rule ls)
    (hm : rule ms) (he : ls ++ xs = ms ++ ys) : ls = ms ∧ xs = ys := by
  obtain ⟨a, p, ha⟩ := h.complete_itemsOf hl (itemsOf xs)
  obtain ⟨b, q, hb⟩ := h.complete_itemsOf hm (itemsOf ys)
  have hi : itemsOf ls ++ itemsOf xs = itemsOf ms ++ itemsOf ys := by
    rw [itemsOf, itemsOf, itemsOf, itemsOf, ← List.map_append, ← List.map_append, he]
  rw [hi, hb] at ha
  simp only [Except.ok.injEq, Prod.mk.injEq, Cursor.mk.injEq] at ha
  obtain rfl : ys = xs := by simpa using congrArg lexemesOf ha.2.2
  exact ⟨List.append_cancel_right he, rfl⟩

/-- What a step blames is blamed by any sequence of steps that begins with it. -/
theorem blames_seq_left (h : Locates stop m rule) (hr : ∃ ls, rule' ls) {c : Cursor}
    {e : SyntaxError} (he : m c = .error e) : Blames stop (Seq rule rule') c.items e.position := by
  refine (h.blames he).transfer [] fun used rest hu => ⟨?_, fun hb => hb.seq hr⟩
  rintro ⟨more, ms, ns, hs, hm, -⟩
  obtain ⟨xs, rfl, -⟩ | ⟨xs, hx, -⟩ := List.append_eq_append_iff.1 hs
  · exact ⟨xs, hm⟩
  · -- the step would have succeeded on the first items
    obtain ⟨us, vs, rfl, rfl, -⟩ := List.map_eq_append_iff.1 hx
    obtain ⟨pending, items⟩ := c
    obtain rfl : items = us ++ vs ++ rest := hu
    obtain ⟨a, p, ha⟩ := h.complete hm pending (vs ++ rest)
    rw [← List.append_assoc, he] at ha
    cases ha

/-- What a step blames is blamed by the sequence of steps that it ends. -/
theorem blames_seq_right (h : Locates stop m rule) {c c' : Cursor} {a : α} {p : Position}
    (hm : m c = .ok (a, c')) (hb : Blames stop rule' c'.items p) :
    Blames stop (Seq rule rule') c.items p := by
  obtain ⟨us, hu, hr⟩ := h.sound hm
  rw [hu]
  refine hb.transfer us fun used rest _ => ⟨?_, ?_⟩
  · rintro ⟨more, ms, ns, hs, hms, hns⟩
    rw [lexemesOf_append, List.append_assoc] at hs
    obtain ⟨-, rfl⟩ := h.eq_of_append_eq hr hms hs
    exact ⟨more, hns⟩
  · rintro ⟨more, hr'⟩
    exact ⟨more, lexemesOf us, _, by simp, hr, hr'⟩

theorem pure (a : α) : Locates stop (Pure.pure a) (· = []) where
  inhabited := ⟨[], rfl⟩
  sound h := by
    cases h
    exact ⟨[], rfl, rfl⟩
  complete h pending rest := by
    obtain rfl := List.map_eq_nil_iff.1 h
    exact ⟨a, pending, rfl⟩
  blames h := by cases h

/-- A step that has something to take gives a value, for which the next step has something. -/
theorem exists_behind {f : α → Reader β} (hm : Locates stop m rule)
    (hf : ∀ a, Locates stop (f a) rule') : ∃ ls, rule' ls := by
  obtain ⟨ms, hms⟩ := hm.inhabited
  obtain ⟨a, -, -⟩ := hm.complete_itemsOf hms []
  exact (hf a).inhabited

theorem bind {f : α → Reader β} (hm : Locates stop m rule)
    (hf : ∀ a, Locates stop (f a) rule') : Locates stop (m >>= f) (Seq rule rule') where
  inhabited := by
    obtain ⟨ms, hms⟩ := hm.inhabited
    obtain ⟨ns, hns⟩ := hm.exists_behind hf
    exact ⟨_, ms, ns, rfl, hms, hns⟩
  sound := by
    intro c c' b h
    simp only [Bind.bind, StateT.bind] at h
    cases hx : m c with
    | error e => simp [hx, Except.bind] at h
    | ok r =>
      obtain ⟨a, c₁⟩ := r
      simp only [hx, Except.bind] at h
      obtain ⟨us, hi, hus⟩ := hm.sound hx
      obtain ⟨vs, hi', hvs⟩ := (hf a).sound h
      exact ⟨us ++ vs, by rw [hi, hi', List.append_assoc], _, _, lexemesOf_append us vs, hus, hvs⟩
  complete := by
    rintro used ⟨ms, ns, he, hms, hns⟩ pending rest
    obtain ⟨us, vs, rfl, rfl, rfl⟩ := List.map_eq_append_iff.1 he
    obtain ⟨a, p, ha⟩ := hm.complete hms pending (vs ++ rest)
    obtain ⟨b, q, hb⟩ := (hf a).complete hns p rest
    refine ⟨b, q, ?_⟩
    simp only [Bind.bind, StateT.bind, List.append_assoc, ha, Except.bind, hb]
  blames := by
    intro c e h
    simp only [Bind.bind, StateT.bind] at h
    cases hx : m c with
    | error e =>
      simp only [hx, Except.bind, Except.error.injEq] at h
      exact h ▸ hm.blames_seq_left (hm.exists_behind hf) hx
    | ok r =>
      obtain ⟨a, c₁⟩ := r
      simp only [hx, Except.bind] at h
      exact hm.blames_seq_right hx ((hf a).blames h)

theorem bind_pure (hm : Locates stop m rule) (f : α → β) :
    Locates stop (m >>= fun a => Pure.pure (f a)) rule := by
  refine (hm.bind fun a => .pure (f a)).congr fun ls => ⟨?_, fun h => ?_⟩
  · rintro ⟨ms, _, rfl, h, rfl⟩
    rwa [List.append_nil]
  · exact ⟨ls, [], (List.append_nil ls).symm, h, rfl⟩

end Locates

variable (stop : Position)

theorem locates_take {α : Type} (expected : Expected) {accept : Lexeme → Except SyntaxFault α}
    (h : ∃ l a, accept l = .ok a) :
    Locates stop (take stop expected accept) fun ls => ∃ a l, ls = [l] ∧ accept l = .ok a where
  inhabited := by
    obtain ⟨l, a, h⟩ := h
    exact ⟨[l], a, l, rfl, h⟩
  sound hm := by
    obtain ⟨used, hu, -, hl⟩ := (recognizes_take stop expected accept).sound hm
    exact ⟨used, hu, _, hl⟩
  complete hl pending rest := by
    obtain ⟨a, hl⟩ := hl
    exact ⟨a, _, (recognizes_take stop expected accept).complete hl pending rest⟩
  blames := by
    intro c e he
    obtain ⟨l, a, hl⟩ := h
    have hnil : Begins (fun ls => ∃ a l, ls = [l] ∧ accept l = .ok a) [] := ⟨[l], a, l, rfl, hl⟩
    unfold take at he
    split at he
    · rename_i hi
      cases he
      rw [hi]
      exact .behind hnil
    · rename_i i is hi
      split at he
      · rename_i fault hf
        cases he
        rw [hi]
        refine .item [] hnil ?_
        rintro ⟨more, b, k, hk, hb⟩
        cases hk
        rw [hf] at hb
        cases hb
      · cases he

theorem exists_locates_mark (m : Mark) : ∃ rule, Locates stop (mark stop m) rule :=
  ⟨_, locates_take stop _ ⟨.mark m, (), by simp [acceptMark]⟩⟩

theorem exists_locates_separator (form : Form) : ∃ rule, Locates stop (separator stop form) rule :=
  ⟨_, locates_take stop _ ⟨.mark .comma, (), rfl⟩⟩

theorem exists_locates_close (form : Form) : ∃ rule, Locates stop (close stop form) rule :=
  ⟨_, locates_take stop _ ⟨.mark .closeParen, (), rfl⟩⟩

theorem exists_locates_string (function : String) :
    ∃ rule, Locates stop (string stop function) rule :=
  ⟨_, locates_take stop _ ⟨.quoted "" "", "", rfl⟩⟩

theorem begins_keysBehind_key (key raw : String) (ls : List Lexeme) :
    Begins (fun ls => ∃ keys, KeysBehind ls keys) (.mark .comma :: .quoted key raw :: ls) ↔
      Begins (fun ls => ∃ keys, KeysBehind ls keys) ls := by
  constructor
  · rintro ⟨more, keys, h⟩
    cases h with
    | key key raw h => exact ⟨more, _, h⟩
  · rintro ⟨more, keys, h⟩
    exact ⟨more, _, .key key raw h⟩

theorem locates_moreKeys : Locates stop (moreKeys stop) fun ls => ∃ keys, KeysBehind ls keys where
  inhabited := ⟨_, _, .close⟩
  sound hm := by
    obtain ⟨used, hu, -, hl⟩ := (recognizes_moreKeys stop).sound hm
    exact ⟨used, hu, _, hl⟩
  complete hl pending rest := by
    obtain ⟨keys, hl⟩ := hl
    exact ⟨keys, _, (recognizes_moreKeys stop).complete hl pending rest⟩
  blames := by
    intro c e he
    have hnil : Begins (fun ls => ∃ keys, KeysBehind ls keys) [] := ⟨_, _, .close⟩
    have hcomma : Begins (fun ls => ∃ keys, KeysBehind ls keys) [.mark .comma] :=
      ⟨[.mark .closeBracket], _, .comma⟩
    unfold moreKeys at he
    obtain ⟨pending, items⟩ := c
    simp only at he ⊢
    fun_induction keysAfter stop pending items with
    | case1 =>
      cases he
      exact .behind hnil
    | case2 | case4 => cases he
    | case3 pending i hb hc =>
      cases he
      exact .behind (by simpa [hc] using hcomma)
    | case5 pending i hb hc k ks hk fault hf =>
      cases he
      refine .item [i] (by simpa [hc] using hcomma) ?_
      rintro ⟨more, keys, h⟩
      simp only [lexemesOf_cons, lexemesOf_nil, hc, List.cons_append, List.nil_append] at h
      generalize hl : k.lexeme = l at h
      cases h with
      | comma => exact hk hl
      | key => simp [hl, acceptString] at hf
    | case6 pending i hb hc k ks hk key ha e hr ih =>
      obtain ⟨raw, hq⟩ := (acceptString_eq_ok _ _ _).1 ha
      cases he
      refine (ih hr).transfer [i, k] fun used rest _ => ?_
      simpa [hc, hq] using begins_keysBehind_key key raw (lexemesOf used)
    | case7 => cases he
    | case8 pending i is hb hc =>
      cases he
      refine .item [] hnil ?_
      rintro ⟨more, keys, h⟩
      generalize hl : i.lexeme = l at h
      cases h with
      | close => exact hb hl
      | comma | key => exact hc hl

theorem exists_locates_arguments (form : Form) :
    ∃ rule, Locates stop (arguments stop form) rule := by
  obtain ⟨_, hopen⟩ := exists_locates_mark stop .openParen
  obtain ⟨_, hstring⟩ := exists_locates_string stop form.name
  obtain ⟨_, hseparator⟩ := exists_locates_separator stop form
  obtain ⟨_, hclose⟩ := exists_locates_close stop form
  cases form with
  | map | layerSwitch =>
    exact ⟨_, hopen.bind fun _ => hstring.bind fun _ => hseparator.bind fun _ =>
      hstring.bind fun _ => hclose.bind fun _ => .pure _⟩
  | tapHold =>
    have htimeout := locates_take stop .timeout ⟨.number 0 "", 0, (rfl : acceptTimeout _ = _)⟩
    exact ⟨_, hopen.bind fun _ => hstring.bind fun _ => hseparator.bind fun _ =>
      hstring.bind fun _ => hseparator.bind fun _ => hstring.bind fun _ =>
      hseparator.bind fun _ => htimeout.bind fun _ => hclose.bind fun _ => .pure _⟩
  | sequence =>
    obtain ⟨_, hbracket⟩ := exists_locates_mark stop .openBracket
    have hkey := locates_take stop (.string Form.sequence.name)
      ⟨.quoted "" "", "", (rfl : acceptFirstKey _ = _)⟩
    exact ⟨_, hopen.bind fun _ => hstring.bind fun _ => hseparator.bind fun _ =>
      hbracket.bind fun _ => hkey.bind fun _ => (locates_moreKeys stop).bind fun _ =>
      hclose.bind fun _ => .pure _⟩

/-- A call behind its first word, with its semicolon. -/
theorem locates_call (form : Form) : Locates stop (call stop form) fun ls =>
    ∃ m ms, Grammar.Call (.name form.name :: ms) m ∧ ls = ms ++ [.mark .semicolon] := by
  obtain ⟨_, harguments⟩ := exists_locates_arguments stop form
  obtain ⟨_, hsemicolon⟩ := exists_locates_mark stop .semicolon
  exact (harguments.bind fun m => hsemicolon.bind fun _ => .pure m).of_recognizes
    (recognizes_call stop form)

/-- A header behind its first word. -/
theorem locates_header (word : String) : Locates stop (header stop word) fun ls =>
    ∃ name, Grammar.Header word (.name word :: ls) name := by
  obtain ⟨_, hopen⟩ := exists_locates_mark stop .openParen
  obtain ⟨_, hstring⟩ := exists_locates_string stop word
  obtain ⟨_, hclose⟩ := exists_locates_mark stop .closeParen
  obtain ⟨_, hbrace⟩ := exists_locates_mark stop .openBrace
  exact (hopen.bind fun _ => hstring.bind fun name => hclose.bind fun _ =>
    hbrace.bind fun _ => .pure name).of_recognizes (recognizes_header stop word)

theorem statement_name_iff {form : Form} {ls : List Lexeme} {m : Mapping} :
    Grammar.Statement (.name form.name :: ls) m ↔
      ∃ ms, Grammar.Call (.name form.name :: ms) m ∧ ls = ms ++ [.mark .semicolon] := by
  constructor
  · intro h
    generalize hw : Lexeme.name form.name :: ls = ws at h
    obtain ⟨hm⟩ := h
    obtain ⟨form', ms, rfl⟩ := exists_form_of_call hm
    obtain ⟨hname, hls⟩ := List.cons.inj hw
    exact ⟨ms, hname ▸ hm, hls⟩
  · rintro ⟨ms, hm, rfl⟩
    exact .mk hm

theorem exists_statement : ∃ ls m, Grammar.Statement ls m := ⟨_, _, .mk (.map "" "" "" "")⟩

theorem locates_statement (place : Place) :
    Locates stop (statement stop place) fun ls => ∃ m, Grammar.Statement ls m where
  inhabited := exists_statement
  sound h := by
    obtain ⟨i, used, m, hi, -, -, hm⟩ := statement_sound stop h
    exact ⟨i :: used, hi, m, hm⟩
  complete := by
    rintro (_ | ⟨i, used⟩) ⟨m, hm⟩ pending rest
    · obtain ⟨form, ms, hn⟩ := exists_form_of_statement hm
      cases hn
    · exact ⟨_, _, statement_complete stop hm place pending rest⟩
  blames := by
    intro c e he
    have hnil : Begins (fun ls => ∃ m, Grammar.Statement ls m) [] := exists_statement
    unfold statement at he
    split at he
    · rename_i hi
      cases he
      rw [hi]
      exact .behind hnil
    · rename_i i is hi
      rw [hi]
      split at he
      · rename_i fault hf
        cases he
        refine .item [] hnil ?_
        rintro ⟨more, m, hm⟩
        obtain ⟨form, ms, hn⟩ := exists_form_of_statement hm
        rw [acceptForm_eq_ok.2 (List.cons.inj hn).1] at hf
        cases hf
      · rename_i form hf
        split at he
        · rename_i hc
          cases he
          refine ((locates_call stop form).blames hc).behind_word fun ls => ?_
          simp only [acceptForm_eq_ok.1 hf, statement_name_iff]
        · cases he

end KeyRemap.Script
