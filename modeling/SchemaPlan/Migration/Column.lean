import SchemaPlan.Json.Value
import SchemaPlan.Schema.Field

/-!
# Columns

What a field becomes in a table.
-/

namespace SchemaPlan

/-- The storage class of a column. -/
inductive Storage where
  | string
  | integer
  | boolean
  | timestamp
  | date
  | json
  | float
deriving DecidableEq, Repr

namespace Storage

def all : List Storage := [.string, .integer, .boolean, .timestamp, .date, .json, .float]

def name : Storage → String
  | .string => "string"
  | .integer => "integer"
  | .boolean => "boolean"
  | .timestamp => "timestamp"
  | .date => "date"
  | .json => "json"
  | .float => "float"

/-- The storage of a type word, common aliases included. -/
def ofTypeName? (type : String) : Option Storage :=
  if type ∈ ["string", "text", "char", "varchar"] then some .string
  else if type ∈ ["integer", "int", "bigint", "smallint", "tinyint"] then some .integer
  else if type = "boolean" then some .boolean
  else if type ∈ ["datetime", "timestamp"] then some .timestamp
  else if type = "date" then some .date
  else if type ∈ ["json", "jsonb"] then some .json
  else if type ∈ ["float", "decimal", "double"] then some .float
  else none

end Storage

structure Constraints where
  nullable : Bool
  primary : Bool
  unique : Bool
  autoIncrement : Bool
  default? : Option String
deriving DecidableEq, Repr

namespace Constraints

def ofAttributes (s : AttributeSet) : Constraints :=
  ⟨s.hasFlag .nullable, s.hasFlag .primary, s.hasFlag .unique, s.hasFlag .autoIncrement,
    s.default?⟩

def toJson (c : Constraints) : Json :=
  .object ([("nullable", .bool c.nullable), ("primary", .bool c.primary),
    ("unique", .bool c.unique), ("auto_increment", .bool c.autoIncrement)] ++
    (c.default?.map fun value => ("default", .string value)).toList)

end Constraints

/-- What a column of a relationship points at. -/
structure Reference where
  relation : String
  model : Identifier
  table : String
deriving DecidableEq

def Reference.toJson (r : Reference) : Json :=
  .object [("relation", .string r.relation), ("model", .string r.model.text),
    ("table", .string r.table)]

structure Column where
  name : String
  storage : Storage
  constraints : Constraints
  reference? : Option Reference
deriving DecidableEq

namespace Column

def text (c : Column) : String :=
  let mark (present : Bool) (word : String) := if present then word else ""
  s!"{c.name} {c.storage.name}" ++ mark c.constraints.primary " primary" ++
    mark c.constraints.autoIncrement " auto_increment" ++ mark c.constraints.unique " unique" ++
    mark c.constraints.nullable " nullable" ++
    (c.constraints.default?.map fun value => s!" default({value})").getD "" ++
    (c.reference?.map fun r => s!" -> {r.table}({r.model})").getD ""

def toJson (c : Column) : Json :=
  .object ([("name", .string c.name), ("storage", .string c.storage.name),
    ("constraints", c.constraints.toJson)] ++
    (c.reference?.map fun r => ("references", r.toJson)).toList)

end Column

/-- The name of a relation: that of its field without a trailing `_id`, unless nothing remains. -/
def relationName (field : String) : String :=
  match "_id".toList.isSuffixOf? field.toList with
  | some (c :: cs) => .ofList (c :: cs)
  | _ => field

/-- The column of a field, under a naming of the tables. -/
def Field.column (f : Field) (tableName : Identifier → String) : Column :=
  let constraints := Constraints.ofAttributes f.attributes
  match f.type with
  | .belongsTo target =>
    let relation := relationName f.name.text
    ⟨relation ++ "_id", .integer, constraints, some ⟨relation, target, tableName target⟩⟩
  | type => ⟨f.name.text, (Storage.ofTypeName? type.name).getD .string, constraints, none⟩

end SchemaPlan
