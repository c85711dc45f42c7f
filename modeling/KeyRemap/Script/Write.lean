import KeyRemap.Document
import KeyRemap.Layout.Format
import KeyRemap.Text.Decimal
import KeyRemap.Text.Occurrence

/-!
# Writing a script

The text of a document: the mappings outside any block, the layers, and the device blocks, each
with its mappings first and its layers after them. A blank line stands above every block that is not
the first thing. A comment that is not written as one becomes line comments.
-/
namespace KeyRemap.Script

open Text

/-- A character inside a string. -/
def escape : Char → List Char
  | '"' => ['\\', '"']
  | '\\' => ['\\', '\\']
  | '\n' => ['\\', 'n']
  | '\t' => ['\\', 't']
  | c => [c]

/-- A string as a script writes it. -/
def quote (s : String) : List Char := '"' :: s.toList.flatMap escape ++ ['"']

/-- Texts with a separator between them. -/
def separated (separator : List Char) : List (List Char) → List Char
  | [] => []
  | [t] => t
  | t :: ts => t ++ separator ++ separated separator ts

/-- The arguments of the call that declares a mapping. -/
def argumentTexts : Mapping → List (List Char)
  | .simple source target => [quote source, quote target]
  | .tapHold source tap hold timeout =>
    [quote source, quote tap, quote hold, Decimal.ofInt timeout]
  | .sequence source keys =>
    [quote source, '[' :: separated [',', ' '] (keys.map quote) ++ [']']]
  | .layerSwitch source layer => [quote source, quote layer]

/-- The statement that declares a mapping. -/
def mappingText (m : Mapping) : List Char :=
  m.form.name.toList ++ '(' :: separated [',', ' '] (argumentTexts m) ++ [')', ';']

/-- Whether a text is written as a line comment. -/
def isLineComment (cs : List Char) : Bool := ['/', '/'].isPrefixOf cs && !cs.contains '\n'

/-- Whether a text is written as a block comment. -/
def isBlockComment (cs : List Char) : Bool :=
  ['/', '*'].isPrefixOf cs && ['*', '/'].isSuffixOf cs && 4 ≤ cs.length &&
    !occursIn ['*', '/'] ((cs.drop 2).dropLast.dropLast)

/-- The lines of a comment: itself if it is written as one, else a line comment for each line. -/
def commentLines (comment : String) : List (List Char) :=
  let cs := trimEnd comment.toList
  if isLineComment cs || isBlockComment cs then [cs]
  else (lines cs).map fun l => ['/', '/', ' '] ++ trim l

/-- Text lines at an indentation. -/
def indented (width : Nat) (ls : List (List Char)) : List (List Char) := ls.map (spaces width ++ ·)

def commentsLines (comments : List String) : List (List Char) := comments.flatMap commentLines

def entryLines (e : Entry) : List (List Char) :=
  commentsLines e.comments ++ [mappingText e.mapping]

/-- The header of a block: the word that announces it and its name. -/
def headerLine (word : String) (name : String) : List Char :=
  word.toList ++ '(' :: quote name ++ [')', ' ', '\x7b']

def layerLines (l : LayerBlock) : List (List Char) :=
  commentsLines l.comments ++ [headerLine "layer" l.name] ++
    indented 4 (l.entries.flatMap entryLines ++ commentsLines l.trailing) ++ [['\x7d']]

/-- Blocks of lines, with a blank line above each that is not the first thing. -/
def appendBlocks (above : List (List Char)) (blocks : List (List (List Char))) :
    List (List Char) :=
  blocks.foldl (fun ls block => (if ls.isEmpty then ls else ls ++ [[]]) ++ block) above

def deviceLines (d : DeviceBlock) : List (List Char) :=
  commentsLines d.comments ++ [headerLine "device" d.pattern] ++
    indented 4 (appendBlocks (d.entries.flatMap entryLines) (d.layers.map layerLines) ++
      commentsLines d.trailing) ++ [['\x7d']]

def documentLines (d : Document) : List (List Char) :=
  let trailing := commentsLines d.trailing
  appendBlocks (d.entries.flatMap entryLines)
    (d.layers.map layerLines ++ d.devices.map deviceLines ++
      if d.trailing.isEmpty then [] else [trailing])

/-- The text of a document before it is laid out. -/
def rawText (d : Document) : List Char := ofLines (documentLines d)

/-- The text of a document. -/
def write (layout : Layout) (d : Document) : List Char := layout.format (rawText d)

end KeyRemap.Script
