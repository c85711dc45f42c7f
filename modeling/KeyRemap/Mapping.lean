/-!
# Mappings

What one statement of a script does to a key.
-/
namespace KeyRemap

/-- A single remapping. The first field of each is the key that is remapped. -/
inductive Mapping where
  /-- Emits another key. -/
  | simple (source target : String)
  /-- Emits `tap` when the key is tapped and holds `hold` while the key is held longer than
  `timeout` milliseconds. A script may give any timeout; the check of a document judges it. -/
  | tapHold (source tap hold : String) (timeout : Int)
  /-- Types keys in order. -/
  | sequence (source : String) (keys : List String)
  /-- Activates a layer. -/
  | layerSwitch (source layer : String)
deriving DecidableEq, Repr

/-- The part a key plays in a mapping. -/
inductive KeyRole where
  | source | target | tap | hold | step
deriving DecidableEq, Repr

/-- A role as messages name it. -/
def KeyRole.text : KeyRole → String
  | .source => "source key"
  | .target => "target key"
  | .tap => "tap key"
  | .hold => "hold key"
  | .step => "macro key"

/-- The functions of the language, one for each kind of mapping. -/
inductive Form where
  | map | tapHold | sequence | layerSwitch
deriving DecidableEq, Repr

namespace Form

/-- The word that calls a function. -/
def name : Form → String
  | .map => "map"
  | .tapHold => "tap_hold"
  | .sequence => "macro"
  | .layerSwitch => "layer_switch"

/-- How many arguments a function takes. -/
def arity : Form → Nat
  | .map | .sequence | .layerSwitch => 2
  | .tapHold => 4

/-- The function that a word calls. -/
def ofName? (word : String) : Option Form :=
  [Form.map, .tapHold, .sequence, .layerSwitch].find? (·.name = word)

@[simp] theorem ofName?_name (f : Form) : ofName? f.name = some f := by
  cases f <;> rfl

end Form

namespace Mapping

/-- The key that is remapped. -/
def source : Mapping → String
  | .simple source _ | .tapHold source _ _ _ | .sequence source _ | .layerSwitch source _ => source

/-- The function that declares the mapping. -/
def form : Mapping → Form
  | .simple .. => .map
  | .tapHold .. => .tapHold
  | .sequence .. => .sequence
  | .layerSwitch .. => .layerSwitch

/-- The keys a mapping names, with their roles. The name of a layer is not a key. -/
def keyRefs : Mapping → List (KeyRole × String)
  | .simple source target => [(.source, source), (.target, target)]
  | .tapHold source tap hold _ => [(.source, source), (.tap, tap), (.hold, hold)]
  | .sequence source keys => (.source, source) :: keys.map (.step, ·)
  | .layerSwitch source _ => [(.source, source)]

/-- Whether the mapping types no keys at all. A script cannot say this. -/
def isEmptySequence : Mapping → Bool
  | .sequence _ keys => keys.isEmpty
  | _ => false

end Mapping

end KeyRemap
