import SchemaPlan.Files.Path

/-!
# Hosts

What a command may ask of the place it runs in: files, and lines of output. Commands are written
for any host.
-/

namespace SchemaPlan

inductive FileError where
  | notFound
  | alreadyExists
  | notFolder
  | isFolder
  /-- The bytes of a file are no text. -/
  | notText
  | other (message : String)
deriving DecidableEq, Repr

def FileError.message : FileError → String
  | .notFound => "No such file or directory (os error 2)"
  | .alreadyExists => "File exists (os error 17)"
  | .notFolder => "Not a directory (os error 20)"
  | .isFolder => "Is a directory (os error 21)"
  | .notText => "stream did not contain valid UTF-8"
  | .other message => message

class Host (m : Type → Type) where
  /-- There is a file or folder at a path. -/
  isPresent : String → m Bool
  /-- There is a folder at a path. -/
  isFolder : String → m Bool
  /-- The text of a file. -/
  read : String → m (Except FileError String)
  /-- Makes a folder in one that is there. -/
  addFolder : String → m (Except FileError Unit)
  /-- Puts a text in place of what a file holds. -/
  write : String → String → m (Except FileError Unit)
  /-- Appends to what the command answers. -/
  out : String → m Unit
  /-- Appends to what the command reports beside its answer. -/
  err : String → m Unit

instance {m : Type → Type} [Monad m] [Host m] {ε : Type} : Host (ExceptT ε m) where
  isPresent path := ExceptT.lift (Host.isPresent path)
  isFolder path := ExceptT.lift (Host.isFolder path)
  read path := ExceptT.lift (Host.read path)
  addFolder path := ExceptT.lift (Host.addFolder path)
  write path text := ExceptT.lift (Host.write path text)
  out text := ExceptT.lift (Host.out text)
  err text := ExceptT.lift (Host.err text)

namespace Host

variable {m : Type → Type} [Monad m] [Host m]

/-- Makes a folder in one that is there. A folder that is there already will do. -/
def ensureFolder (path : String) : m (Except FileError Unit) := do
  match ← addFolder path with
  | .ok () => return .ok ()
  | .error e => return if ← isFolder path then .ok () else .error e

/-- Makes the first of some folders, each of which is in the next. Those that are missing are made
from the outside in, and stay when one of them cannot be made. -/
def ensureFolders : List String → m (Except FileError Unit)
  | [] => return .ok ()
  | path :: outer => do
    match ← ensureFolder path with
    | .error .notFound =>
      match ← ensureFolders outer with
      | .ok () => ensureFolder path
      | .error e => return .error e
    | made => return made

/-- Makes a folder and those around it that are missing. -/
def makeFolder (path : String) : m (Except FileError Unit) := ensureFolders (Files.folders path)

end Host

end SchemaPlan
