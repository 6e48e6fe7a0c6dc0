import SchemaPlan.Migration.Change
import SchemaPlan.Migration.Column
import SchemaPlan.Migration.Delta
import SchemaPlan.Naming.Table

/-!
# Plans

One operation for each change of a change set, and diagnostics for what a reader should check:
types without a storage of their own, relationships that lead nowhere, tables that several models
share.
-/

namespace SchemaPlan

/-- Changes that are shown and not carried out. -/
inductive PendingKind where
  | drop
  | update
deriving DecidableEq, Repr

namespace PendingKind

def all : List PendingKind := [.drop, .update]

def name : PendingKind → String
  | .drop => "drop"
  | .update => "update"

end PendingKind

inductive Operation where
  | createTable (model : Identifier) (table : String) (columns : List Column)
  | pending (kind : PendingKind) (model : Identifier) (table : String)
      (delta? : Option ModelDelta)

namespace Operation

instance : BEq Operation where
  beq
    | .createTable m t cs, .createTable m' t' cs' => m == m' && t == t' && cs == cs'
    | .pending k m t d, .pending k' m' t' d' => k == k' && m == m' && t == t' && d == d'
    | _, _ => false

def model : Operation → Identifier
  | .createTable model .. => model
  | .pending _ model .. => model

def table : Operation → String
  | .createTable _ table _ => table
  | .pending _ _ table _ => table

def columns : Operation → List Column
  | .createTable _ _ columns => columns
  | .pending .. => []

def isPending : Operation → Bool
  | .createTable .. => false
  | .pending .. => true

/-- What is done, in one word. -/
def action : Operation → String
  | .createTable .. => "create"
  | .pending kind .. => s!"pending_{kind.name}"

def deltaText (d : ModelDelta) : String :=
  s!": {d.added.length} added, {d.removed.length} removed, {d.changed.length} changed" ++
    if d.reordered then ", reordered" else ""

def text : Operation → String
  | .createTable model table columns =>
    s!"CREATE TABLE '{table}' for '{model}' ({columns.length} columns)"
  | .pending kind model table delta? =>
    s!"PENDING {kind.name} '{model}' (table '{table}')" ++ (delta?.map deltaText).getD ""

def toJson : Operation → Json
  | .createTable model table columns =>
    .object [("op", .string "create_table"), ("model", .string model.text),
      ("table", .string table), ("columns", .array (columns.map Column.toJson))]
  | .pending kind model table delta? =>
    .object ([("op", .string "pending"), ("kind", .string kind.name),
      ("model", .string model.text), ("table", .string table)] ++
      (delta?.map fun d => ("delta", d.toJson)).toList)

/-- The operation of a change, under a naming of the tables. -/
def ofChange (tableName : Identifier → String) : Change → Operation
  | .create m =>
    .createTable m.name (tableName m.name) (m.fields.map fun f => f.column tableName)
  | .drop name => .pending .drop name (tableName name) none
  | .update name old new =>
    .pending .update name (tableName name) (some (.between old new))

end Operation

inductive Diagnostic where
  | typeFallback (model field : Identifier) (type : String)
  | unresolvedReference (model field target : Identifier)
  | tableNameCollision (table : String) (models : List Identifier)
deriving DecidableEq

namespace Diagnostic

def text : Diagnostic → String
  | .typeFallback model field type =>
    s!"unknown type '{type}' on '{model}.{field}', stored as string"
  | .unresolvedReference model field target =>
    s!"'{model}.{field}' references unknown model '{target}'"
  | .tableNameCollision table models =>
    let names := ", ".intercalate (models.map Identifier.text)
    s!"models {names} all map to table '{table}'"

def toJson : Diagnostic → Json
  | .typeFallback model field type =>
    .object [("diagnostic", .string "type_fallback"), ("model", .string model.text),
      ("field", .string field.text), ("type_name", .string type)]
  | .unresolvedReference model field target =>
    .object [("diagnostic", .string "unresolved_reference"), ("model", .string model.text),
      ("field", .string field.text), ("target", .string target.text)]
  | .tableNameCollision table models =>
    .object [("diagnostic", .string "table_name_collision"), ("table", .string table),
      ("models", .strings (models.map Identifier.text))]

/-- What is to be said of a field of a new table. A relationship is checked only if the models of
the schema are known. -/
def ofField? (known? : Option Document) (model : Identifier) (f : Field) : Option Diagnostic :=
  match f.type with
  | .belongsTo target =>
    match known? with
    | some known =>
      if known.Contains target then none else some (.unresolvedReference model f.name target)
    | none => none
  | type =>
    if (Storage.ofTypeName? type.name).isSome then none
    else some (.typeFallback model f.name type.name)

def ofChange (known? : Option Document) : Change → List Diagnostic
  | .create m => m.fields.filterMap (ofField? known? m.name)
  | .drop _ => []
  | .update .. => []

end Diagnostic

/-- The operations on one table. -/
structure TableGroup where
  /-- What the table is told apart by. -/
  key : String
  table : String
  models : List Identifier

namespace TableGroup

/-- Files an operation with its group; a new table starts a group after the others. -/
def add (fold : String → String) (op : Operation) : List TableGroup → List TableGroup
  | [] => [⟨fold op.table, op.table, [op.model]⟩]
  | g :: rest =>
    if g.key = fold op.table then
      { g with models := if op.model ∈ g.models then g.models else g.models ++ [op.model] } :: rest
    else g :: add fold op rest

def ofOperations (fold : String → String) (ops : List Operation) : List TableGroup :=
  ops.foldl (fun groups op => add fold op groups) []

def collision? (g : TableGroup) : Option Diagnostic :=
  if g.models.length > 1 then some (.tableNameCollision g.table g.models) else none

end TableGroup

/-- The tables that several models share. Tables are told apart by their folded names. -/
def collisions (fold : String → String) (ops : List Operation) : List Diagnostic :=
  (TableGroup.ofOperations fold ops).filterMap TableGroup.collision?

structure Plan where
  operations : List Operation
  diagnostics : List Diagnostic

namespace Plan

instance : BEq Plan where
  beq p q := p.operations == q.operations && p.diagnostics == q.diagnostics

/-- The plan of a change set, under a naming of the tables. Targets of relationships are checked
against the known models, if there are any. Letter case does not tell tables apart. -/
def build (tableName : Identifier → String) (known? : Option Document) (changes : ChangeSet)
    (fold : String → String := String.toLower) : Plan :=
  let operations := changes.map (Operation.ofChange tableName)
  ⟨operations, changes.flatMap (Diagnostic.ofChange known?) ++ collisions fold operations⟩

def pending (p : Plan) : List Operation := p.operations.filter Operation.isPending

def text (p : Plan) : String :=
  let operation (entry : String × Operation) :=
    entry.1 ++ "\n" ++ .join (entry.2.columns.map fun c => s!"       - {c.text}\n")
  s!"Migration plan ({p.operations.length} operations, {p.pending.length} pending)\n" ++
    .join (((numbered (p.operations.map Operation.text)).zip p.operations).map operation) ++
    .join (p.diagnostics.map fun d => s!"  warning: {d.text}\n")

def toJson (p : Plan) : Json :=
  .object [("operations", .array (p.operations.map Operation.toJson)),
    ("diagnostics", .array (p.diagnostics.map Diagnostic.toJson))]

end Plan

structure PlanOptions where
  tableNaming : TableNaming := .snakePlural
  checkReferences : Bool := true
deriving DecidableEq

namespace PlanOptions

def plan (o : PlanOptions) (known? : Option Document) (changes : ChangeSet) : Plan :=
  Plan.build o.tableNaming.tableName (if o.checkReferences then known? else none) changes

end PlanOptions

end SchemaPlan
