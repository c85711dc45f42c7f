import KeyRemap.Command.Arguments
import KeyRemap.Command.Run

/-!
# The program

The command line over the files of the system. This module only moves data in and out: what the
words mean and what is answered is decided by the modules it imports.
-/
namespace KeyRemap

/-- What the system says went wrong with a file. -/
def fileErrorOf (e : IO.Error) : FileError :=
  let known (code : UInt32) (details : String) : FileError :=
    match code with
    | 2 => .notFound
    | 16 => .busy
    | 17 => .exists
    | 20 => .notDirectory
    | 21 => .isDirectory
    | 36 => .tooLong
    | code => .other s!"{details} (os error {code})"
  match e with
  | .noFileOrDirectory _ code details | .alreadyExists _ code details
  | .inappropriateType _ code details | .permissionDenied _ code details
  | .resourceExhausted _ code details | .invalidArgument _ code details
  | .interrupted _ code details | .noSuchThing _ code details => known code details
  | .resourceBusy code details | .unsatisfiedConstraints code details
  | .hardwareFault code details | .otherError code details => known code details
  | e => .other (toString e)

/-- The result of an action on the file at a path. -/
def fileResult {α : Type} (p : Path) (action : IO α) : IO (Except FileError α) := do
  if p.text.toList.contains '\x00' then return .error .nullCharacter
  try return .ok (← action)
  catch e => return .error (fileErrorOf e)

instance : FileAccess IO where
  stat p := fileResult p do
    let data ← (System.mkFilePath [p.text]).metadata
    return ⟨data.type == .dir, data.byteSize.toNat⟩
  read p := fileResult p do
    let bytes ← IO.FS.readBinFile p.text
    return match String.fromUTF8? bytes with
      | some value => .text value
      | none => .binary bytes.data.toList
  write p text := fileResult p (IO.FS.writeFile p.text text)
  rename source target := fileResult source (IO.FS.rename source.text target.text)
  createDirectory p := fileResult p (IO.FS.createDir p.text)

/-- The directory of the user for the settings of all programs. -/
def settingsHome : IO (Option Path) := do
  match ← IO.getEnv "XDG_CONFIG_HOME", ← IO.getEnv "HOME" with
  | some directory, home =>
    if directory.startsWith "/" then return some ⟨directory⟩
    else return (home.filter (!·.isEmpty)).map fun h => (Path.mk h).join ".config"
  | none, home => return (home.filter (!·.isEmpty)).map fun h => (Path.mk h).join ".config"

/-- How the program is called. -/
def usage : String :=
  Identity.description ++ "\n\nUsage: " ++ Identity.binaryName ++
    " [--config FILE] [--verbose] COMMAND\n\nCommands: fmt, check, inspect, render, keys, " ++
    "config show, config path, config set\n\n" ++ Identity.usageHint ++ "\n"

end KeyRemap

open KeyRemap in
def main (words : List String) : IO UInt32 := do
  let output ← IO.getStdout
  let errors ← IO.getStderr
  match Arguments.read words with
  | .error .version => output.putStr Identity.versionText; return 0
  | .error .help => output.putStr usage; return 0
  | .error .misuse => errors.putStr usage; return 2
  | .ok invocation =>
    let outcome ← (invocation.run (← settingsHome) : IO Outcome)
    output.putStr outcome.output
    output.flush
    errors.putStr outcome.errors
    return outcome.code.toUInt32
