import KeyRemap.Command
import KeyRemap.Text.Decimal
import KeyRemap.Word

/-!
# Arguments

The words of a command line, read level by level: every level has options and either operands or
commands, each with a level of its own. Options are given by a long name or a letter; a value stands
behind an equals sign or in the next word, and letters without values may be run together. Behind
two dashes all words are operands.
-/
namespace KeyRemap.Arguments

/-- What a word may say. -/
inductive Kind where
  | text
  /-- A text that is not empty. -/
  | path
  /-- An unsigned integer of 64 bits. -/
  | number
  | truth
deriving DecidableEq, Repr

/-- An option. One without a kind of values is given or not. -/
structure Choice where
  name : String
  letter : Option Char := none
  kind : Option Kind := none
deriving DecidableEq, Repr

/-- What may follow the word that leads to a level. -/
structure Level where
  choices : List Choice := []
  /-- The kind of the operand, if there is one. -/
  operand : Option Kind := none
  /-- The words that lead to a level below. -/
  commands : List String := []
  /-- Whether the version of the program can be asked for. -/
  versioned : Bool := false

/-- Why a command line does not name a command. -/
inductive Stop where
  | misuse
  | help
  | version
deriving DecidableEq, Repr

/-- What was given on a level. -/
structure Given where
  /-- Options with their values, by name. -/
  values : List (String × String) := []
  /-- An option whose value is the word read last. It counts as given when the next word is read,
  or, if that leads to a level below, when all words are. -/
  pending : Option (Choice × String) := none
  operand : Option String := none
  /-- A word that leads to a level below, and the words behind it. -/
  below : Option (String × List String) := none

/-- The number that a word writes; a plus sign may stand in front. -/
def number? (word : String) : Option Nat :=
  let digits := match word.toList with
    | '+' :: cs => cs
    | cs => cs
  if digits.isEmpty || !digits.all Char.isDigit then none
  else
    let value := Text.Decimal.value digits
    if fitsUnsigned value then some value else none

def truth? (word : String) : Option Bool :=
  if word = "true" then some true else if word = "false" then some false else none

/-- Whether a word says something of a kind. -/
def Kind.accepts (k : Kind) (word : String) : Bool :=
  match k with
  | .text => true
  | .path => !word.isEmpty
  | .number => (number? word).isSome
  | .truth => (truth? word).isSome

/-- Whether a word looks like an option. A single dash does not. -/
def isDashed (word : String) : Bool :=
  match word.toList with
  | '-' :: _ :: _ => true
  | _ => false

namespace Given

def has (g : Given) (name : String) : Bool := g.values.any (·.1 = name)

def value? (g : Given) (name : String) : Option String :=
  (g.values.find? (·.1 = name)).map (·.2)

/-- Gives an option, which has not been given yet. -/
def give (g : Given) (c : Choice) (value : String) : Except Stop Given :=
  let fits := match c.kind with
    | none => true
    | some k => k.accepts value
  if g.has c.name || !fits then .error .misuse
  else .ok { g with values := g.values ++ [(c.name, value)] }

/-- Gives the operand, which has not been given yet. -/
def giveOperand (g : Given) (l : Level) (word : String) : Except Stop Given :=
  match l.operand, g.operand with
  | some k, none => if k.accepts word then .ok { g with operand := some word } else .error .misuse
  | _, _ => .error .misuse

/-- Takes the next word as the value of an option. -/
def giveNext (g : Given) (c : Choice) : List String → Except Stop (Given × List String)
  | [] => .error .misuse
  | word :: words =>
    if isDashed word then .error .misuse else .ok ({ g with pending := some (c, word) }, words)

/-- Gives the option whose value is the word read last. -/
def settle (g : Given) : Except Stop Given :=
  match g.pending with
  | none => .ok g
  | some (c, word) => { g with pending := none }.give c word

/-- Reads a long option, behind its dashes. -/
def readLong (g : Given) (l : Level) (option : List Char) (words : List String) :
    Except Stop (Given × List String) := do
  let name := String.ofList (option.takeWhile (· != '='))
  let value? : Option String := match option.dropWhile (· != '=') with
    | [] => none
    | _ :: value => some (String.ofList value)
  match l.choices.find? (·.name = name), value? with
  | some c, value? =>
    match c.kind, value? with
    | none, none => return (← g.give c "", words)
    | none, some _ => .error .misuse
    | some _, some value => return (← g.give c value, words)
    | some _, none => g.giveNext c words
  | none, none =>
    if name = "help" then .error .help
    else if name = "version" ∧ l.versioned then .error .version
    else .error .misuse
  | none, some _ => .error .misuse

/-- Reads options by their letters, which are run together. -/
def readLetters (l : Level) : Given → List Char → List String → Except Stop (Given × List String)
  | g, [], words => .ok (g, words)
  | g, c :: cs, words =>
    match l.choices.find? (·.letter = some c) with
    | some choice =>
      match choice.kind, cs with
      | none, cs => do readLetters l (← g.give choice "") cs words
      | some _, [] => g.giveNext choice words
      | some _, '=' :: value => do return (← g.give choice (String.ofList value), words)
      | some _, value => do return (← g.give choice (String.ofList value), words)
    | none =>
      if c = 'h' then .error .help
      else if c = 'V' ∧ l.versioned then .error .version
      else .error .misuse

/-- Reads words that are operands whatever they look like. -/
def readOperands (g : Given) (l : Level) : List String → Except Stop Given
  | [] => .ok g
  | word :: words => do (← g.giveOperand l word).readOperands l words

/-- Reads the words of a level; `fuel` bounds their number. -/
def readWithin (l : Level) : (fuel : Nat) → Given → List String → Except Stop Given
  | _, g, [] => g.settle
  | 0, _, _ => .error .misuse
  | fuel + 1, g, word :: words =>
    if l.commands.contains word then .ok { g with below := some (word, words) }
    else do
      let g ← g.settle
      match word.toList with
      | ['-', '-'] => g.readOperands l words
      | '-' :: '-' :: option =>
        let (g, words) ← g.readLong l option words
        readWithin l fuel g words
      | '-' :: c :: cs =>
        let (g, words) ← readLetters l g (c :: cs) words
        readWithin l fuel g words
      | _ => readWithin l fuel (← g.giveOperand l word) words

end Given

/-- Reads the words of a level. -/
def Level.read (l : Level) (words : List String) : Except Stop Given :=
  Given.readWithin l words.length {} words

/-- The options that every level has. -/
def commonChoices : List Choice := [⟨"config", none, some .path⟩, ⟨"verbose", some 'v', none⟩]

/-- A level without levels below it. -/
def leaf (choices : List Choice) (operand : Option Kind) : Level :=
  { choices := choices ++ commonChoices, operand := operand }

/-- A level that leads to others, and to the help on them. -/
def branch (commands : List String) (versioned : Bool) : Level :=
  { choices := commonChoices, commands := commands ++ ["help"], versioned := versioned }

def fileLevel (choices : List Choice) : Level := leaf choices (some .path)

def topLevel : Level := branch ["fmt", "check", "inspect", "render", "keys", "config"] true

def settingsLevel : Level := branch ["show", "path", "set"] false

def formatLevel : Level := fileLevel [⟨"write", some 'w', none⟩, ⟨"check", none, none⟩]

def checkLevel : Level := fileLevel [⟨"json", none, none⟩, ⟨"strict", none, none⟩]

def inspectLevel : Level := fileLevel [⟨"device", none, some .text⟩, ⟨"json", none, none⟩]

def renderLevel : Level := fileLevel [⟨"output", some 'o', some .path⟩, ⟨"validate", none, none⟩]

def keysLevel : Level :=
  leaf [⟨"category", some 'c', some .text⟩, ⟨"json", none, none⟩] (some .text)

def showLevel : Level := leaf [⟨"json", none, none⟩] none

def pathLevel : Level := leaf [] none

def changeLevel : Level := leaf [⟨"indent-width", none, some .number⟩,
  ⟨"max-line-length", none, some .number⟩, ⟨"collapse-blank-lines", none, some .truth⟩,
  ⟨"keep-comments-in-place", none, some .truth⟩, ⟨"debounce-ms", none, some .number⟩,
  ⟨"max-input-bytes", none, some .number⟩] none

/-- The operand of a level that has to have one. -/
def Given.file (g : Given) : Except Stop Path :=
  match g.operand with
  | some word => .ok ⟨word⟩
  | none => .error .misuse

/-- The new values of settings that were given. -/
def Given.change (g : Given) : SettingsChange where
  indentWidth := (g.value? "indent-width").bind number?
  maxLineLength := (g.value? "max-line-length").bind number?
  collapseBlankLines := (g.value? "collapse-blank-lines").bind truth?
  keepCommentsInPlace := (g.value? "keep-comments-in-place").bind truth?
  debounce := (g.value? "debounce-ms").bind number?
  maxInputBytes := (g.value? "max-input-bytes").bind number?

/-- What the words behind a request for help lead to: help, if they name a level. -/
def help (levels : List (List String)) (words : List String) : Stop :=
  if levels.contains words then .help else .misuse

/-- The settings file that was given. -/
def Given.settingsFile (g : Given) : Option Path := (g.value? "config").map Path.mk

/-- Reads the words of a level and makes them a command. -/
def invoke (l : Level) (words : List String) (command : Given → Except Stop Command) :
    Except Stop Invocation := do
  let g ← l.read words
  return ⟨g.settingsFile, ← command g⟩

/-- Reads the words of a level that leads to others. What is behind the word that leads on is read
first; a settings file that is given there replaces one that is given above. -/
def descend (l : Level) (words : List String)
    (next : String → List String → Except Stop Invocation) : Except Stop Invocation := do
  let g ← l.read words
  match g.below with
  | none => .error .misuse
  | some (word, words) =>
    let i ← next word words
    let g ← g.settle
    return { i with settingsFile := i.settingsFile.or g.settingsFile }

/-- The words that help can be asked for on the level of settings. -/
def settingsTopics : List (List String) := [[], ["show"], ["path"], ["set"], ["help"]]

/-- The words that help can be asked for. -/
def topics : List (List String) :=
  [[], ["fmt"], ["check"], ["inspect"], ["render"], ["keys"], ["help"]] ++
    settingsTopics.map ("config" :: ·)

/-- The command to lay out a script. -/
def Given.format (g : Given) : Except Stop Command := do
  let file ← g.file
  match g.has "write", g.has "check" with
  | true, true => .error .misuse
  | true, false => return .format file .write
  | false, true => return .format file .check
  | false, false => return .format file .print

/-- The command to check a script. -/
def Given.check (g : Given) : Except Stop Command := do
  return .check (← g.file) (g.has "json") (g.has "strict")

/-- The command to show what a script says. -/
def Given.inspect (g : Given) : Except Stop Command := do
  return .inspect (← g.file) (g.value? "device") (g.has "json")

/-- The command to write a document as a script. -/
def Given.render (g : Given) : Except Stop Command := do
  return .render (← g.file) ((g.value? "output").map Path.mk) (g.has "validate")

/-- The command to search the names of keys. -/
def Given.keys (g : Given) : Except Stop Command :=
  .ok (.keys g.operand (g.value? "category") (g.has "json"))

/-- Reads the words behind the one that leads to the settings. -/
def readSettings (words : List String) : Except Stop Invocation :=
  descend settingsLevel words fun
    | "show", words => invoke showLevel words fun g => .ok (.showSettings (g.has "json"))
    | "path", words => invoke pathLevel words fun _ => .ok .locateSettings
    | "set", words => invoke changeLevel words fun g => .ok (.changeSettings g.change)
    | _, words => .error (help settingsTopics words)

/-- Reads a command line. -/
def read (words : List String) : Except Stop Invocation :=
  descend topLevel words fun
    | "fmt", words => invoke formatLevel words Given.format
    | "check", words => invoke checkLevel words Given.check
    | "inspect", words => invoke inspectLevel words Given.inspect
    | "render", words => invoke renderLevel words Given.render
    | "keys", words => invoke keysLevel words Given.keys
    | "config", words => readSettings words
    | _, words => .error (help topics words)

end KeyRemap.Arguments
