import SchemaPlan.Schema.Error
import SchemaPlan.Schema.Identifier
import SchemaPlan.Text.Blank

/-!
# Field types

A primitive of the schema language, a reference to another model, or any other word. Other words
are kept as they stand; giving them a storage is the plan's concern.
-/

namespace SchemaPlan

inductive Primitive where
  | string
  | integer
  | boolean
  | timestamp
  | date
  | json
  | float
deriving DecidableEq, Repr

namespace Primitive

def all : List Primitive := [.string, .integer, .boolean, .timestamp, .date, .json, .float]

def name : Primitive → String
  | .string => "string"
  | .integer => "integer"
  | .boolean => "boolean"
  | .timestamp => "timestamp"
  | .date => "date"
  | .json => "json"
  | .float => "float"

def ofName? (s : String) : Option Primitive := all.find? (·.name == s)

@[simp] theorem ofName?_name (p : Primitive) : ofName? p.name = some p := by cases p <;> decide

theorem name_of_ofName? {s : String} {p : Primitive} (h : ofName? s = some p) : p.name = s := by
  simpa using List.find?_some h

theorem ofName?_eq_none_iff {s : String} : ofName? s = none ↔ ∀ p : Primitive, s ≠ p.name := by
  constructor
  · rintro none p rfl
    simp at none
  · intro other
    apply List.find?_eq_none.mpr
    intro p _ same
    exact other p (beq_iff_eq.mp same).symm

end Primitive

/-- Names a model after a text, which has to be an identifier. -/
def modelName (s : String) : Except SchemaError Identifier :=
  match Identifier.ofString? s with
  | some name => .ok name
  | none => .error (.invalidModelName s)

/-- Names a field after a text, which has to be an identifier. -/
def fieldName (s : String) : Except SchemaError Identifier :=
  match Identifier.ofString? s with
  | some name => .ok name
  | none => .error (.invalidFieldName s)

inductive FieldType where
  | primitive (primitive : Primitive)
  | belongsTo (target : Identifier)
  | other (name : String)
deriving DecidableEq

namespace FieldType

/-- The type that a bare word stands for. -/
def ofName (s : String) : FieldType :=
  match Primitive.ofName? s with
  | some p => .primitive p
  | none => .other s

/-- The bare word, without the target of a relationship. -/
def name : FieldType → String
  | .primitive p => p.name
  | .belongsTo _ => "belongsTo"
  | .other s => s

def target? : FieldType → Option Identifier
  | .belongsTo target => some target
  | _ => none

def text : FieldType → String
  | .primitive p => p.name
  | .belongsTo target => s!"belongsTo({target})"
  | .other s => s

/-- Reads `belongsTo(Target)` or a word. A `belongsTo` without target is a word like any other. -/
def ofText (s : String) : Except SchemaError FieldType :=
  match Text.between? "belongsTo(" ")" s with
  | some target => (modelName (Text.trim target)).map .belongsTo
  | none => if isIdentifier s.toList then .ok (ofName s) else .error (.invalidFieldType s)

end FieldType

end SchemaPlan
