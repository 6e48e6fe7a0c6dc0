import SchemaPlan.Command.Environment
import SchemaPlan.Command.Failure
import SchemaPlan.Settings.Settings
import SchemaPlan.Source.Declaration

/-!
# Loading and writing files

The files that a command works on, and the failures they may end it with.
-/

namespace SchemaPlan

/-- A step of a command, on any host. -/
abbrev Task (m : Type → Type) := ExceptT Failure m

variable {m : Type → Type} [Monad m] [Host m]

/-- Does what fails only as an operation on a path does. -/
def onPath {α : Type} (path : String) (action : m (Except FileError α)) : Task m α := do
  match ← action with
  | .ok a => return a
  | .error e => throw (.file path e)

def loadSettings (path : String) : Task m Settings := do
  let text ← onPath path (Host.read path)
  match Settings.ofText text with
  | .ok settings => return settings
  | .error e => throw (.settings s!"failed to parse {path}: {e.message}")

/-- The first of some settings files that is present, and the defaults if none is. -/
def searchSettings : List String → Task m Settings
  | [] => return {}
  | path :: rest => do
    if ← Host.isPresent path then loadSettings path else searchSettings rest

/-- A settings file that is asked for has to be there. -/
def findSettings (env : Environment) (explicit? : Option String) : Task m Settings :=
  match explicit? with
  | some path => loadSettings path
  | none => searchSettings env.settingsFiles

structure LoadedSchema where
  source : String
  declared : Source.Declared

def LoadedSchema.document (l : LoadedSchema) : Document := l.declared.document

def loadSchema (path : String) : Task m LoadedSchema := do
  match ← Host.read path with
  | .error .notFound => throw (.schemaMissing path)
  | .error e => throw (.file path e)
  | .ok source =>
    match Source.parse source with
    | .ok declared => return ⟨source, declared⟩
    | .error e => throw (.source path e)

/-- The document of the last sync. Without a lock file it is empty. -/
def loadLock (path : String) : Task m Document := do
  match ← Host.read path with
  | .error .notFound => return ∅
  | .error e => throw (.file path e)
  | .ok text =>
    match Document.decode text with
    | .ok document => return document
    | .error e => throw (.snapshot path e)

/-- Writes a file in a folder that is made if need be. -/
def writeFile (path text : String) : Task m Unit := do
  let folder := Files.parent path
  onPath folder (Host.makeFolder folder)
  onPath path (Host.write path text)

end SchemaPlan
