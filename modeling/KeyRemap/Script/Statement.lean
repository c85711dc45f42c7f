import KeyRemap.Document
import KeyRemap.Script.Error

/-!
# Reading statements

The reader goes through the tokens that are no comments, from left to right, and stops at the first
that cannot be there. Comments wait until a statement or a block header starts, or a block or the
text ends, and belong to that. Every step gives back no item it has taken, which is why the loops
over a block and a text end.
-/
namespace KeyRemap

/-- A token that is no comment, with the comments between it and the one before. -/
structure Item where
  comments : List String
  lexeme : Lexeme
  position : Position

/-- The tokens that are no comments, and the comments behind the last of them. -/
def Item.ofTokens : List Token → List Item × List String
  | [] => ([], [])
  | t :: ts =>
    let (items, last) := ofTokens ts
    if t.isComment then
      match items with
      | [] => ([], t.lexeme.text :: last)
      | i :: is => ({ i with comments := t.lexeme.text :: i.comments } :: is, last)
    else (⟨[], t.lexeme, t.position⟩ :: items, last)

/-- What is left to read, and the comments that wait. -/
structure Cursor where
  pending : List String
  items : List Item

namespace Script

/-- A step of the reader. -/
abbrev Reader := StateT Cursor (Except SyntaxError)

/-- Takes the next item if `accept` has a value for it. `stop` is the place behind the text. -/
def take {α : Type} (stop : Position) (expected : Expected)
    (accept : Lexeme → Except SyntaxFault α) : Reader α := fun c =>
  match c.items with
  | [] => .error ⟨stop, .unexpectedEnd expected⟩
  | i :: is =>
    match accept i.lexeme with
    | .error fault => .error ⟨i.position, fault⟩
    | .ok a => .ok (a, ⟨c.pending ++ i.comments, is⟩)

/-- A mark and nothing else. -/
def acceptMark (m : Mark) (l : Lexeme) : Except SyntaxFault Unit :=
  if l = .mark m then .ok () else .error (.unexpected (.mark m) l)

/-- The comma between two arguments. -/
def acceptSeparator (form : Form) : Lexeme → Except SyntaxFault Unit
  | .mark .comma => .ok ()
  | .mark .closeParen => .error (.tooFewArguments form)
  | l => .error (.unexpected (.mark .comma) l)

/-- The parenthesis behind the last argument. -/
def acceptClose (form : Form) : Lexeme → Except SyntaxFault Unit
  | .mark .closeParen => .ok ()
  | .mark .comma => .error (.tooManyArguments form)
  | l => .error (.unexpected (.mark .closeParen) l)

def acceptString (function : String) : Lexeme → Except SyntaxFault String
  | .quoted value _ => .ok value
  | l => .error (.unexpected (.string function) l)

def acceptTimeout : Lexeme → Except SyntaxFault Int
  | .number value _ => .ok value
  | l => .error (.unexpected .timeout l)

/-- The first key of a list. -/
def acceptFirstKey : Lexeme → Except SyntaxFault String
  | .mark .closeBracket => .error .emptyKeyList
  | l => acceptString Form.sequence.name l

variable (stop : Position)

def mark (m : Mark) : Reader Unit := take stop (.mark m) (acceptMark m)

def separator (form : Form) : Reader Unit := take stop (.mark .comma) (acceptSeparator form)

def close (form : Form) : Reader Unit := take stop (.mark .closeParen) (acceptClose form)

def string (function : String) : Reader String := take stop (.string function) (acceptString function)

/-- The keys behind the first key of a list, and the closing bracket. A comma may stand in front of
the bracket. -/
def keysAfter (pending : List String) : List Item → Except SyntaxError (List String × Cursor)
  | [] => .error ⟨stop, .unexpectedEnd .listMark⟩
  | i :: is =>
    if i.lexeme = .mark .closeBracket then .ok ([], ⟨pending ++ i.comments, is⟩)
    else if i.lexeme = .mark .comma then
      match is with
      | [] => .error ⟨stop, .unexpectedEnd (.string Form.sequence.name)⟩
      | k :: ks =>
        if k.lexeme = .mark .closeBracket then
          .ok ([], ⟨pending ++ i.comments ++ k.comments, ks⟩)
        else
          match acceptString Form.sequence.name k.lexeme with
          | .error fault => .error ⟨k.position, fault⟩
          | .ok key =>
            match keysAfter (pending ++ i.comments ++ k.comments) ks with
            | .error e => .error e
            | .ok (keys, c) => .ok (key :: keys, c)
    else .error ⟨i.position, .unexpected .listMark i.lexeme⟩

/-- The keys behind the first key of a list, and the closing bracket. -/
def moreKeys : Reader (List String) := fun c => keysAfter stop c.pending c.items

/-- The arguments of a call, parentheses included. -/
def arguments (form : Form) : Reader Mapping := do
  mark stop .openParen
  let source ← string stop form.name
  separator stop form
  match form with
  | .map =>
    let target ← string stop form.name
    close stop form
    return .simple source target
  | .layerSwitch =>
    let layer ← string stop form.name
    close stop form
    return .layerSwitch source layer
  | .tapHold =>
    let tap ← string stop form.name
    separator stop form
    let hold ← string stop form.name
    separator stop form
    let timeout ← take stop .timeout acceptTimeout
    close stop form
    return .tapHold source tap hold timeout
  | .sequence =>
    mark stop .openBracket
    let key ← take stop (.string form.name) acceptFirstKey
    let keys ← moreKeys stop
    close stop form
    return .sequence source (key :: keys)

/-- Where a statement stands. -/
inductive Place where
  | topLevel | device | layer
deriving DecidableEq, Repr

/-- The function that a statement begins with. -/
def acceptForm (place : Place) : Lexeme → Except SyntaxFault Form
  | .name word =>
    match Form.ofName? word with
    | some form => .ok form
    | none =>
      if word = "device" then .error (.nestedDevice (place = .layer))
      else if word = "layer" then .error .nestedLayer
      else .error (.unknownFunction word)
  | .mark .closeBrace => .error .strayBrace
  | l => .error (.unexpected .statement l)

/-- The arguments of a call and its semicolon. -/
def call (form : Form) : Reader Mapping := do
  let mapping ← arguments stop form
  mark stop .semicolon
  return mapping

/-- A call with the comments that wait. -/
def statement (place : Place) : Reader Entry := fun c =>
  match c.items with
  | [] => .error ⟨stop, .unexpectedEnd .statement⟩
  | i :: is =>
    match acceptForm place i.lexeme with
    | .error fault => .error ⟨i.position, fault⟩
    | .ok form =>
      match call stop form ⟨[], is⟩ with
      | .error e => .error e
      | .ok (mapping, c') => .ok (⟨mapping, c.pending ++ i.comments, i.position⟩, c')

/-- The name of a block and its opening brace, behind the word that announces it. -/
def header (word : String) : Reader String := do
  mark stop .openParen
  let name ← string stop word
  mark stop .closeParen
  mark stop .openBrace
  return name

/-- A step that gives back no item. -/
def Advances {α : Type} (m : Reader α) : Prop :=
  ∀ c a c', m c = .ok (a, c') → c'.items.length ≤ c.items.length

theorem advances_pure {α : Type} (a : α) : Advances (pure a : Reader α) := by
  intro c b c' h
  cases h
  exact Nat.le_refl _

theorem advances_bind {α β : Type} {m : Reader α} {f : α → Reader β} (hm : Advances m)
    (hf : ∀ a, Advances (f a)) : Advances (m >>= f) := by
  intro c b c' h
  simp only [Bind.bind, StateT.bind] at h
  cases hx : m c with
  | error e => simp [hx, Except.bind] at h
  | ok r =>
    obtain ⟨a, c''⟩ := r
    simp only [hx, Except.bind] at h
    exact Nat.le_trans (hf a c'' b c' h) (hm c a c'' hx)

theorem length_lt_of_take {α : Type} {expected : Expected} {accept : Lexeme → Except SyntaxFault α}
    {c c' : Cursor} {a : α} (h : take stop expected accept c = .ok (a, c')) :
    c'.items.length < c.items.length := by
  unfold take at h
  split at h
  · cases h
  · rename_i i is hi
    split at h
    · cases h
    · cases h
      simp [hi]

theorem advances_take {α : Type} (expected : Expected) (accept : Lexeme → Except SyntaxFault α) :
    Advances (take stop expected accept) :=
  fun _ _ _ h => Nat.le_of_lt (length_lt_of_take stop h)

theorem length_le_of_keysAfter {pending : List String} {items : List Item} {keys : List String}
    {c : Cursor} (h : keysAfter stop pending items = .ok (keys, c)) :
    c.items.length ≤ items.length := by
  fun_induction keysAfter stop pending items generalizing keys c with
  | case1 | case3 | case5 | case8 => cases h
  | case2 pending i is => cases h; simp
  | case4 => cases h; simp; omega
  | case6 => cases h
  | case7 pending i k ks hi hc hk key ha keys' c' hr ih =>
    cases h
    have := ih hr
    simp
    omega

theorem advances_moreKeys : Advances (moreKeys stop) :=
  fun _ _ _ h => length_le_of_keysAfter stop h

theorem advances_arguments (form : Form) : Advances (arguments stop form) := by
  refine advances_bind (advances_take _ _ _) fun _ => advances_bind (advances_take _ _ _) fun _ =>
    advances_bind (advances_take _ _ _) fun _ => ?_
  cases form with
  | map | layerSwitch =>
    exact advances_bind (advances_take _ _ _) fun _ => advances_bind (advances_take _ _ _) fun _ =>
      advances_pure _
  | tapHold =>
    exact advances_bind (advances_take _ _ _) fun _ => advances_bind (advances_take _ _ _) fun _ =>
      advances_bind (advances_take _ _ _) fun _ => advances_bind (advances_take _ _ _) fun _ =>
      advances_bind (advances_take _ _ _) fun _ => advances_bind (advances_take _ _ _) fun _ =>
      advances_pure _
  | sequence =>
    exact advances_bind (advances_take _ _ _) fun _ => advances_bind (advances_take _ _ _) fun _ =>
      advances_bind (advances_moreKeys stop) fun _ => advances_bind (advances_take _ _ _) fun _ =>
      advances_pure _

theorem advances_call (form : Form) : Advances (call stop form) :=
  advances_bind (advances_arguments stop form) fun _ => advances_bind (advances_take _ _ _) fun _ =>
    advances_pure _

theorem advances_header (word : String) : Advances (header stop word) :=
  advances_bind (advances_take _ _ _) fun _ => advances_bind (advances_take _ _ _) fun _ =>
    advances_bind (advances_take _ _ _) fun _ => advances_bind (advances_take _ _ _) fun _ =>
    advances_pure _

theorem length_lt_of_statement {place : Place} {c c' : Cursor} {e : Entry}
    (h : statement stop place c = .ok (e, c')) : c'.items.length < c.items.length := by
  unfold statement at h
  split at h
  · cases h
  · rename_i i is hi
    split at h
    · cases h
    · split at h
      · cases h
      · rename_i mapping c'' hc
        cases h
        have := advances_call stop _ _ _ _ hc
        simp [hi] at this ⊢
        omega

end Script

end KeyRemap
