import KeyRemap.Script.Statement

/-!
# Reading a script

A script is a sequence of statements, layer blocks and device blocks. A layer block holds
statements, a device block statements and layer blocks. The size of a text is looked at before
anything else.
-/
namespace KeyRemap.Script

variable (stop : Position)

/-- The statements of a layer up to its closing brace, and the comments in front of the brace. -/
def layerBody (c : Cursor) : Except SyntaxError ((List Entry × List String) × Cursor) :=
  match c.items with
  | [] => .error ⟨stop, .unexpectedEnd (.mark .closeBrace)⟩
  | i :: is =>
    if i.lexeme = .mark .closeBrace then .ok (([], c.pending ++ i.comments), ⟨[], is⟩)
    else
      match h : statement stop .layer c with
      | .error e => .error e
      | .ok (entry, c') =>
        have : c'.items.length < c.items.length := length_lt_of_statement stop h
        match layerBody c' with
        | .error e => .error e
        | .ok ((entries, trailing), c'') => .ok ((entry :: entries, trailing), c'')
termination_by c.items.length

/-- A layer block behind its first word, which stood at `position` under `comments`. -/
def layer (position : Position) (comments : List String) (c : Cursor) :
    Except SyntaxError (LayerBlock × Cursor) :=
  match header stop "layer" c with
  | .error e => .error e
  | .ok (name, c') =>
    match layerBody stop c' with
    | .error e => .error e
    | .ok ((entries, trailing), c'') =>
      .ok (⟨name, comments, entries, trailing, position⟩, c'')

theorem length_le_of_layerBody {c c' : Cursor} {r : List Entry × List String}
    (h : layerBody stop c = .ok (r, c')) : c'.items.length ≤ c.items.length := by
  fun_induction layerBody stop c generalizing r c' with
  | case1 => cases h
  | case2 c i is hi => cases h; simp [hi]
  | case3 => cases h
  | case4 => cases h
  | case5 c i is hi hb entry c₁ hs hlt entries trailing c₂ hr ih =>
    cases h
    have := ih hr
    omega

theorem length_le_of_layer {position : Position} {comments : List String} {c c' : Cursor}
    {l : LayerBlock} (h : layer stop position comments c = .ok (l, c')) :
    c'.items.length ≤ c.items.length := by
  unfold layer at h
  split at h
  · cases h
  · rename_i name c₁ hh
    split at h
    · cases h
    · rename_i entries trailing c₂ hb
      cases h
      exact Nat.le_trans (length_le_of_layerBody stop hb) (advances_header stop _ _ _ _ hh)

/-- The statements and layers of a device block up to its closing brace, and the comments in front
of the brace. -/
def deviceBody (c : Cursor) :
    Except SyntaxError ((List Entry × List LayerBlock × List String) × Cursor) :=
  match hi : c.items with
  | [] => .error ⟨stop, .unexpectedEnd (.mark .closeBrace)⟩
  | i :: is =>
    if i.lexeme = .mark .closeBrace then .ok (([], [], c.pending ++ i.comments), ⟨[], is⟩)
    else if i.lexeme = .name "layer" then
      match h : layer stop i.position (c.pending ++ i.comments) ⟨[], is⟩ with
      | .error e => .error e
      | .ok (l, c') =>
        have : c'.items.length < c.items.length := by
          have := length_le_of_layer stop h
          simp [hi] at this ⊢
          omega
        match deviceBody c' with
        | .error e => .error e
        | .ok ((entries, layers, trailing), c'') => .ok ((entries, l :: layers, trailing), c'')
    else
      match h : statement stop .device c with
      | .error e => .error e
      | .ok (entry, c') =>
        have : c'.items.length < c.items.length := length_lt_of_statement stop h
        match deviceBody c' with
        | .error e => .error e
        | .ok ((entries, layers, trailing), c'') => .ok ((entry :: entries, layers, trailing), c'')
termination_by c.items.length

/-- A device block behind its first word, which stood at `position` under `comments`. -/
def device (position : Position) (comments : List String) (c : Cursor) :
    Except SyntaxError (DeviceBlock × Cursor) :=
  match header stop "device" c with
  | .error e => .error e
  | .ok (pattern, c') =>
    match deviceBody stop c' with
    | .error e => .error e
    | .ok ((entries, layers, trailing), c'') =>
      .ok (⟨pattern, comments, entries, layers, trailing, position⟩, c'')

theorem length_le_of_deviceBody {c c' : Cursor} {r : List Entry × List LayerBlock × List String}
    (h : deviceBody stop c = .ok (r, c')) : c'.items.length ≤ c.items.length := by
  fun_induction deviceBody stop c generalizing r c' with
  | case1 => cases h
  | case2 c i is hi => cases h; simp [hi]
  | case3 | case4 | case6 | case7 => cases h
  | case5 c i is hi hb hl l c₁ hs hlt entries layers trailing c₂ hr ih =>
    cases h
    have := ih hr
    omega
  | case8 c i is hi hb hl entry c₁ hs hlt entries layers trailing c₂ hr ih =>
    cases h
    have := ih hr
    omega

theorem length_le_of_device {position : Position} {comments : List String} {c c' : Cursor}
    {d : DeviceBlock} (h : device stop position comments c = .ok (d, c')) :
    c'.items.length ≤ c.items.length := by
  unfold device at h
  split at h
  · cases h
  · rename_i name c₁ hh
    split at h
    · cases h
    · rename_i entries layers trailing c₂ hb
      cases h
      exact Nat.le_trans (length_le_of_deviceBody stop hb) (advances_header stop _ _ _ _ hh)

/-- The document that the items make up; `last` are the comments behind them. -/
def document (last : List String) (c : Cursor) : Except SyntaxError Document :=
  match hi : c.items with
  | [] => .ok { trailing := c.pending ++ last }
  | i :: is =>
    if i.lexeme = .name "device" then
      match h : device stop i.position (c.pending ++ i.comments) ⟨[], is⟩ with
      | .error e => .error e
      | .ok (d, c') =>
        have : c'.items.length < c.items.length := by
          have := length_le_of_device stop h
          simp [hi] at this ⊢
          omega
        match document last c' with
        | .error e => .error e
        | .ok doc => .ok { doc with devices := d :: doc.devices }
    else if i.lexeme = .name "layer" then
      match h : layer stop i.position (c.pending ++ i.comments) ⟨[], is⟩ with
      | .error e => .error e
      | .ok (l, c') =>
        have : c'.items.length < c.items.length := by
          have := length_le_of_layer stop h
          simp [hi] at this ⊢
          omega
        match document last c' with
        | .error e => .error e
        | .ok doc => .ok { doc with layers := l :: doc.layers }
    else
      match h : statement stop .topLevel c with
      | .error e => .error e
      | .ok (entry, c') =>
        have : c'.items.length < c.items.length := length_lt_of_statement stop h
        match document last c' with
        | .error e => .error e
        | .ok doc => .ok { doc with entries := entry :: doc.entries }
termination_by c.items.length

/-- The document that the tokens of a text make up; `stop` is the place behind the text. -/
def ofTokens (tokens : List Token) : Except SyntaxError Document :=
  let (items, last) := Item.ofTokens tokens
  document stop last ⟨[], items⟩

/-- The document that a text says, whatever its size. -/
def parse (text : List Char) : Except SyntaxError Document :=
  match tokenize text with
  | .error e => .error e.toSyntaxError
  | .ok tokens => ofTokens (Position.start.after text) tokens

/-- The document that a text of at most `limit` bytes says. -/
def read (limit : Nat) (source : String) : Except SyntaxError Document :=
  if source.utf8ByteSize ≤ limit then parse source.toList
  else .error ⟨.start, .tooLong source.utf8ByteSize limit⟩

/-- The size that is accepted unless the settings say otherwise. -/
def defaultLimit : Nat := 1024 * 1024

end KeyRemap.Script
