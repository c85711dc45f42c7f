import KeyRemap.Fault
import KeyRemap.Mapping
import KeyRemap.Token.Scan
import KeyRemap.Text.Distance

/-!
# Errors of the language

Why a text is not a script. Every error is the first one of its text and stands at the token that
cannot be there, or behind the text if it should go on.
-/
namespace KeyRemap

/-- The words the language reserves for calls and blocks. -/
def knownWords : List String := ["map", "tap_hold", "macro", "layer_switch", "layer", "device"]

/-- What can stand at a place of a script. -/
inductive Expected where
  | statement
  | mark (m : Mark)
  /-- A string argument of the function or block. -/
  | string (function : String)
  | timeout
  /-- A comma or a closing bracket behind a key of a list. -/
  | listMark
deriving DecidableEq, Repr

namespace Expected

def text : Expected → String
  | .statement => "a statement"
  | .mark m => "'" ++ m.char.toString ++ "'"
  | .string _ => "a string"
  | .timeout => "a number"
  | .listMark => "',' or ']'"

/-- How to provide what is expected. -/
def hint : Expected → Option String
  | .statement => none
  | .mark .openParen => some "add an opening parenthesis"
  | .mark .closeParen => some "add a closing parenthesis"
  | .mark .openBrace => some "open the block with '\x7b'"
  | .mark .closeBrace => some "add a closing brace"
  | .mark .openBracket => some "wrap the key list in [ ]"
  | .mark .closeBracket => some "add a closing bracket"
  | .mark .comma => some "separate arguments with a comma"
  | .mark .semicolon => some "add a semicolon"
  | .string _ => some "wrap key name in double quotes"
  | .timeout => some "provide a timeout in ms"
  | .listMark => some "add a closing bracket"

end Expected

/-- Why a text is not a script. -/
inductive SyntaxFault where
  /-- The text has more bytes than are accepted. -/
  | tooLong (bytes limit : Nat)
  | lexical (fault : LexicalFault)
  /-- The text ends too early. -/
  | unexpectedEnd (expected : Expected)
  | unexpected (expected : Expected) (found : Lexeme)
  /-- A closing brace without a block to close. -/
  | strayBrace
  | tooFewArguments (form : Form)
  | tooManyArguments (form : Form)
  | emptyKeyList
  /-- A device block inside a device block, or inside a layer. -/
  | nestedDevice (inLayer : Bool)
  | nestedLayer
  | unknownFunction (name : String)
deriving DecidableEq, Repr

namespace SyntaxFault

def message : SyntaxFault → String
  | .tooLong bytes limit => s!"input is {bytes} bytes, exceeding the limit of {limit} bytes"
  | .lexical fault => fault.message
  | .unexpectedEnd expected => "expected " ++ expected.text ++ " but found end of input"
  | .unexpected .timeout (.quoted _ _) => "timeout must be a number, not a string"
  | .unexpected (.string _) (.name found) => "expected a string but found '" ++ found ++ "'"
  | .unexpected (.string function) found =>
    "expected a string argument to '" ++ function ++ "' but found " ++ found.describe
  | .unexpected expected found => "expected " ++ expected.text ++ " but found " ++ found.describe
  | .strayBrace => "unexpected '\x7d'"
  | .tooFewArguments form => "too few arguments to '" ++ form.name ++ "'"
  | .tooManyArguments form => "too many arguments to '" ++ form.name ++ "'"
  | .emptyKeyList => "macro key list is empty"
  | .nestedDevice true => "device blocks cannot appear inside a layer block"
  | .nestedDevice false => "device blocks cannot be nested"
  | .nestedLayer => "layer blocks cannot be nested"
  | .unknownFunction name => "unknown function '" ++ name ++ "'"

def hint : SyntaxFault → Option String
  | .tooLong _ _ => some "split the script or raise limits.max_input_bytes"
  | .lexical fault => fault.hint
  | .unexpectedEnd expected => expected.hint
  | .unexpected .timeout (.quoted _ _) => some "provide a timeout in ms, e.g. 200"
  | .unexpected (.string _) (.name found) =>
    some ("wrap key name in double quotes: \"" ++ found ++ "\"")
  | .unexpected .listMark (.quoted _ _) => some "separate keys with a comma"
  | .unexpected expected _ => expected.hint
  | .strayBrace => some "remove the extra closing brace"
  | .tooFewArguments form | .tooManyArguments form =>
    some s!"'{form.name}' takes {form.arity} arguments"
  | .emptyKeyList => some "list at least one key, e.g. [\"H\", \"I\"]"
  | .nestedDevice _ => some "close the enclosing block first"
  | .nestedLayer => some "close the enclosing layer block first"
  | .unknownFunction name =>
    match Text.closest? 3 name knownWords with
    | some known => some ("did you mean '" ++ known ++ "'?")
    | none => some ("expected one of: " ++ ", ".intercalate knownWords)

end SyntaxFault

/-- The first error of a text. -/
structure SyntaxError where
  position : Position
  fault : SyntaxFault
deriving DecidableEq, Repr

/-- The error as its reader is told. -/
def SyntaxError.toFault (e : SyntaxError) : Fault := ⟨e.position, e.fault.message, e.fault.hint⟩

def SyntaxError.text (e : SyntaxError) : String := e.toFault.text

/-- The error that a lexical error is. -/
def LexicalError.toSyntaxError (e : LexicalError) : SyntaxError := ⟨e.position, .lexical e.fault⟩

end KeyRemap
