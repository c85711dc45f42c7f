import KeyRemap.Layout

/-!
# Settings

What a user may choose: the layout of scripts, how long the engine waits for more text edits, and
the size up to which scripts are accepted. Settings that a file may hold keep to bounds.
-/
namespace KeyRemap

structure Settings where
  layout : Layout := {}
  /-- The quiet time after a text edit before the text is read, in milliseconds. -/
  debounce : Nat := 500
  /-- The greatest size of a script. -/
  maxInputBytes : Nat := 1024 * 1024
deriving DecidableEq, Repr, Inhabited

namespace Settings

/-- The greatest indentation. -/
def maxIndentWidth : Nat := 16

/-- The least value of the length at which lines are wrapped. -/
def minLineLength : Nat := 20

/-- The longest quiet time, in milliseconds. -/
def maxDebounce : Nat := 10000

/-- A setting that is out of bounds, with its value. -/
inductive Fault where
  | indentWidth (value : Nat)
  | lineLength (value : Nat)
  | debounce (value : Nat)
  | noInput
deriving DecidableEq, Repr

def Fault.text : Fault → String
  | .indentWidth value =>
    s!"format.indent_width must be between 1 and {maxIndentWidth}, got {value}"
  | .lineLength value => s!"format.max_line_length must be at least {minLineLength}, got {value}"
  | .debounce value => s!"sync.debounce_ms must be at most {maxDebounce}, got {value}"
  | .noInput => "limits.max_input_bytes must be greater than 0"

/-- The first setting that is out of bounds. -/
def fault? (s : Settings) : Option Fault :=
  if s.layout.indentWidth < 1 ∨ maxIndentWidth < s.layout.indentWidth then
    some (.indentWidth s.layout.indentWidth)
  else if s.layout.maxLineLength < minLineLength then some (.lineLength s.layout.maxLineLength)
  else if maxDebounce < s.debounce then some (.debounce s.debounce)
  else if s.maxInputBytes = 0 then some .noInput
  else none

/-- Settings that keep to the bounds. -/
structure Valid (s : Settings) : Prop where
  indentWidth_pos : 1 ≤ s.layout.indentWidth
  indentWidth_le : s.layout.indentWidth ≤ maxIndentWidth
  le_lineLength : minLineLength ≤ s.layout.maxLineLength
  debounce_le : s.debounce ≤ maxDebounce
  maxInputBytes_pos : 0 < s.maxInputBytes

/-- No setting is out of bounds just when all keep to them. -/
theorem fault?_eq_none_iff (s : Settings) : s.fault? = none ↔ s.Valid := by
  unfold fault?
  constructor
  · intro h
    split at h; · cases h
    split at h; · cases h
    split at h; · cases h
    split at h; · cases h
    exact ⟨by omega, by omega, by omega, by omega, by omega⟩
  · rintro ⟨h₁, h₂, h₃, h₄, h₅⟩
    rw [if_neg (by omega), if_neg (by omega), if_neg (by omega), if_neg (by omega)]

end Settings

end KeyRemap
