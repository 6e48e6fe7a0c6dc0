import SchemaPlan.Command.Arguments
import SchemaPlan.Command.Run

/-!
# The command line

The host that is the machine itself, and the program.
-/

namespace SchemaPlan

/-- What the machine said of a file. Of the two faults with the wrong kind of thing at the path, a
folder where a file should be is the one with code 21; a file where a folder should be comes with a
code of either sign. -/
def FileError.ofSystem : IO.Error → FileError
  | .noFileOrDirectory .. => .notFound
  | .alreadyExists .. => .alreadyExists
  | .inappropriateType _ code _ => if code = 21 then .isFolder else .notFolder
  | e => .other (toString e)

def attempt {α : Type} (action : IO α) : BaseIO (Except FileError α) := do
  match ← action.toBaseIO with
  | .ok a => return .ok a
  | .error e => return .error (.ofSystem e)

def readText (path : String) : BaseIO (Except FileError String) := do
  match ← attempt (IO.FS.readBinFile path) with
  | .error e => return .error e
  | .ok content =>
    match String.fromUTF8? content with
    | some text => return .ok text
    | none => return .error .notText

instance : Host IO where
  isPresent path := do
    match ← readText path with
    | .error .notFound | .error .notFolder => return false
    | _ => return true
  isFolder path := do
    match ← readText path with
    | .error .isFolder => return true
    | _ => return false
  read path := readText path
  addFolder path := attempt (IO.FS.createDir path)
  write path text := attempt (IO.FS.writeFile path text)
  out text := IO.print text
  err text := IO.eprint text

def UsageError.message : UsageError → String
  | .helpWanted | .nothingGiven =>
    "usage: schemaplan [SWITCH]... (parse [--print] | fmt [--check] | plan |\n" ++
    "         sync [-n, --dry-run] [-o, --plan-out PATH])\n" ++
    "switches: -c, --config PATH; --format (human|json|plain); -v, --verbose; -q, --quiet;\n" ++
    "         --no-color; -s, --schema PATH; -l, --lock PATH"
  | .versionWanted => "schemaplan 0.1.0"
  | .missingCommand => "error: a command is needed"
  | .unknownCommand => "error: no such command"
  | .unknownArgument => "error: an argument is not known"
  | .invalidValue => "error: a value is missing or not allowed"
  | .conflict => "error: switches exclude one another"
  | .unexpectedValue => "error: a switch takes no value"

def Environment.current : IO Environment := do
  return ⟨← IO.getEnv "HOME", ← IO.getEnv "XDG_CONFIG_HOME", ← IO.getEnv "KALEIDO_CONFIG",
    ← IO.getEnv "NO_COLOR"⟩

end SchemaPlan

open SchemaPlan in
def main (words : List String) : IO UInt32 := do
  let env ← Environment.current
  match Invocation.ofWords env words with
  | .error e =>
    if e.exitCode = 0 then IO.println e.message else IO.eprintln e.message
    return e.exitCode.toUInt32
  | .ok invocation =>
    match ← invocation.run env with
    | .ok () => return 0
    | .error failure => return failure.exitCode.toUInt32
