import KeyRemap.Document
import KeyRemap.Token

/-!
# The grammar of scripts

    program      := item*
    item         := statement | device_block | layer_block
    device_block := "device" "(" STRING ")" "{" (statement | layer_block)* "}"
    layer_block  := "layer" "(" STRING ")" "{" statement* "}"
    statement    := call ";"
    call         := "map" "(" STRING "," STRING ")"
                  | "tap_hold" "(" STRING "," STRING "," STRING "," NUMBER ")"
                  | "macro" "(" STRING "," "[" STRING ("," STRING)* ","? "]" ")"
                  | "layer_switch" "(" STRING "," STRING ")"

Each rule is a relation between a sequence of words and what it says, so a derivation and its tree
are one. Calls and headers are sequences of lexemes; statements and blocks are sequences of tokens,
since a statement and a header are placed at their first token. Comments are no words: the trees
hold none.
-/
namespace KeyRemap.Grammar

/-- Strings with commas between them. -/
inductive Keys : List Lexeme → List String → Prop
  | one (key raw : String) : Keys [.quoted key raw] [key]
  | more (key raw : String) {ls : List Lexeme} {keys : List String} (h : Keys ls keys) :
    Keys (.quoted key raw :: .mark .comma :: ls) (key :: keys)

theorem Keys.exists_cons {ls : List Lexeme} {keys : List String} (h : Keys ls keys) :
    ∃ key raw ms more, ls = .quoted key raw :: ms ∧ keys = key :: more := by
  cases h with
  | one key raw => exact ⟨key, raw, _, _, rfl, rfl⟩
  | more key raw h => exact ⟨key, raw, _, _, rfl, rfl⟩

/-- Commas are the only marks between keys. -/
theorem Keys.eq_comma_of_mem {ls : List Lexeme} {keys : List String} (h : Keys ls keys) {m : Mark}
    (hm : .mark m ∈ ls) : m = .comma := by
  induction h with
  | one key raw => simp at hm
  | more key raw _ ih =>
    rcases List.mem_cons.1 hm with hm | hm
    · cases hm
    · rcases List.mem_cons.1 hm with hm | hm
      · exact Lexeme.mark.inj hm
      · exact ih hm

theorem Keys.ne_nil {ls : List Lexeme} {keys : List String} (h : Keys ls keys) : ls ≠ [] := by
  cases h <;> exact List.cons_ne_nil _ _

/-- A call and the mapping that it declares. -/
inductive Call : List Lexeme → Mapping → Prop
  | map (source target a b : String) :
    Call [.name "map", .mark .openParen, .quoted source a, .mark .comma, .quoted target b,
      .mark .closeParen] (.simple source target)
  | tapHold (source tap hold : String) (timeout : Int) (a b c d : String) :
    Call [.name "tap_hold", .mark .openParen, .quoted source a, .mark .comma, .quoted tap b,
      .mark .comma, .quoted hold c, .mark .comma, .number timeout d, .mark .closeParen]
      (.tapHold source tap hold timeout)
  | sequence (source a : String) {ls : List Lexeme} {keys : List String} (h : Keys ls keys)
    {comma : List Lexeme} (hc : comma = [] ∨ comma = [.mark .comma]) :
    Call ([.name "macro", .mark .openParen, .quoted source a, .mark .comma, .mark .openBracket] ++
      ls ++ comma ++ [.mark .closeBracket, .mark .closeParen]) (.sequence source keys)
  | layerSwitch (source layer a b : String) :
    Call [.name "layer_switch", .mark .openParen, .quoted source a, .mark .comma, .quoted layer b,
      .mark .closeParen] (.layerSwitch source layer)

/-- The header of a block, announced by a word, and its name. -/
inductive Header (word : String) : List Lexeme → String → Prop
  | mk (name raw : String) :
    Header word [.name word, .mark .openParen, .quoted name raw, .mark .closeParen,
      .mark .openBrace] name

/-- A call and a semicolon. -/
inductive Statement : List Lexeme → Mapping → Prop
  | mk {ls : List Lexeme} {m : Mapping} (h : Call ls m) : Statement (ls ++ [.mark .semicolon]) m

/-- A statement where it stands. -/
inductive StatementAt : List Token → Entry → Prop
  | mk {first : Token} {ts : List Token} {m : Mapping}
    (h : Statement ((first :: ts).map (·.lexeme)) m) :
    StatementAt (first :: ts) { mapping := m, position := first.position }

/-- Statements one behind the other. -/
inductive Statements : List Token → List Entry → Prop
  | none : Statements [] []
  | more {ts us : List Token} {e : Entry} {es : List Entry} (h : StatementAt ts e)
    (hs : Statements us es) : Statements (ts ++ us) (e :: es)

/-- A header, statements and a closing brace. -/
inductive Layer : List Token → LayerBlock → Prop
  | mk {first brace : Token} {ts us : List Token} {name : String} {es : List Entry}
    (h : Header "layer" ((first :: ts).map (·.lexeme)) name) (hs : Statements us es)
    (hb : brace.lexeme = .mark .closeBrace) :
    Layer (first :: ts ++ us ++ [brace])
      { name := name, entries := es, position := first.position }

/-- Statements and layers in any order, each kept in theirs. -/
inductive DeviceItems : List Token → List Entry → List LayerBlock → Prop
  | none : DeviceItems [] [] []
  | statement {ts us : List Token} {e : Entry} {es : List Entry} {ls : List LayerBlock}
    (h : StatementAt ts e) (hs : DeviceItems us es ls) : DeviceItems (ts ++ us) (e :: es) ls
  | layer {ts us : List Token} {l : LayerBlock} {es : List Entry} {ls : List LayerBlock}
    (h : Layer ts l) (hs : DeviceItems us es ls) : DeviceItems (ts ++ us) es (l :: ls)

/-- A header, statements and layers, and a closing brace. -/
inductive Device : List Token → DeviceBlock → Prop
  | mk {first brace : Token} {ts us : List Token} {pattern : String} {es : List Entry}
    {ls : List LayerBlock} (h : Header "device" ((first :: ts).map (·.lexeme)) pattern)
    (hs : DeviceItems us es ls) (hb : brace.lexeme = .mark .closeBrace) :
    Device (first :: ts ++ us ++ [brace])
      { pattern := pattern, entries := es, layers := ls, position := first.position }

/-- Statements, layers and device blocks in any order, each kept in theirs. -/
inductive Program : List Token → Document → Prop
  | none : Program [] {}
  | statement {ts us : List Token} {e : Entry} {d : Document} (h : StatementAt ts e)
    (hs : Program us d) : Program (ts ++ us) { d with entries := e :: d.entries }
  | layer {ts us : List Token} {l : LayerBlock} {d : Document} (h : Layer ts l)
    (hs : Program us d) : Program (ts ++ us) { d with layers := l :: d.layers }
  | device {ts us : List Token} {b : DeviceBlock} {d : Document} (h : Device ts b)
    (hs : Program us d) : Program (ts ++ us) { d with devices := b :: d.devices }

end KeyRemap.Grammar
