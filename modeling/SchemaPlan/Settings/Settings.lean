import SchemaPlan.Json.Value
import SchemaPlan.Migration.Plan
import SchemaPlan.Settings.Toml

/-!
# Settings

Where the schema and its lock file are, and how plans are made. Whatever a settings file leaves out
has a default. A settings file keeps to the part of TOML that `Toml` reads.
-/

namespace SchemaPlan

structure Settings where
  schema : String := "database/schema.kld"
  lock : String := "database/schema.kld.lock"
  plan : PlanOptions := {}
deriving DecidableEq

namespace Settings

inductive Error where
  | text (error : Toml.Error)
  | wrongKind (key expected : String)
  | unknownNaming (name : String)
deriving DecidableEq, Repr

def Error.message : Error → String
  | .text e => e.message
  | .wrongKind key expected => s!"'{key}' is to be {expected}"
  | .unknownNaming name => s!"unknown table naming '{name}'"

def stringOr (t : Toml) (table key default : String) : Except Error String :=
  match t.get? (some table) key with
  | none => .ok default
  | some (.string s) => .ok s
  | some _ => .error (.wrongKind s!"{table}.{key}" "a string")

def boolOr (t : Toml) (table key : String) (default : Bool) : Except Error Bool :=
  match t.get? (some table) key with
  | none => .ok default
  | some (.bool b) => .ok b
  | some _ => .error (.wrongKind s!"{table}.{key}" "true or false")

def namingOr (t : Toml) (table key : String) (default : TableNaming) :
    Except Error TableNaming := do
  let name ← stringOr t table key default.name
  match TableNaming.all.find? (·.name == name) with
  | some naming => return naming
  | none => .error (.unknownNaming name)

/-- Refuses a key that has the name of a table. -/
def noKey (t : Toml) (table : String) : Except Error Unit :=
  if (t.get? none table).isSome then .error (.wrongKind table "a table") else .ok ()

/-- The settings of a file. Tables and keys it does not know are ignored. -/
def ofToml (t : Toml) : Except Error Settings := do
  noKey t "paths"
  noKey t "plan"
  let default : Settings := {}
  let schema ← stringOr t "paths" "schema" default.schema
  let lock ← stringOr t "paths" "lock" default.lock
  let naming ← namingOr t "plan" "table_naming" default.plan.tableNaming
  let check ← boolOr t "plan" "check_references" default.plan.checkReferences
  return ⟨schema, lock, naming, check⟩

/-- The settings of a text in that part of TOML. Any other form of TOML is refused as malformed. -/
def ofText (s : String) : Except Error Settings := do
  ofToml (← (Toml.ofText s).mapError .text)

def toJson (s : Settings) : Json :=
  .object [("paths", .object [("schema", .string s.schema), ("lock", .string s.lock)]),
    ("plan", .object [("table_naming", .string s.plan.tableNaming.name),
      ("check_references", .bool s.plan.checkReferences)])]

/-- Settings for one run: a schema file that is named there brings its own lock file, unless that
is named too. -/
def withPaths (s : Settings) (schema? lock? : Option String) : Settings :=
  { s with
    schema := schema?.getD s.schema
    lock := lock?.getD ((schema?.map (· ++ ".lock")).getD s.lock) }

end Settings

end SchemaPlan
