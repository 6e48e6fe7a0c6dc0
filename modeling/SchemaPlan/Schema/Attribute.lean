import SchemaPlan.Schema.Error
import SchemaPlan.Text.Blank

/-!
# Attributes

The constraints and modifiers of a field: four flags, and a default value kept as raw text.
-/

namespace SchemaPlan

inductive Flag where
  | primary
  | unique
  | nullable
  | autoIncrement
deriving DecidableEq, Repr

namespace Flag

def all : List Flag := [.primary, .unique, .nullable, .autoIncrement]

def name : Flag → String
  | .primary => "primary"
  | .unique => "unique"
  | .nullable => "nullable"
  | .autoIncrement => "autoIncrement"

def ofName? (s : String) : Option Flag := all.find? (·.name == s)

@[simp] theorem ofName?_name (f : Flag) : ofName? f.name = some f := by cases f <;> decide

theorem name_of_ofName? {s : String} {f : Flag} (h : ofName? s = some f) : f.name = s := by
  simpa using List.find?_some h

theorem ofName?_eq_none_iff {s : String} : ofName? s = none ↔ ∀ f : Flag, s ≠ f.name := by
  constructor
  · rintro none f rfl
    simp at none
  · intro other
    apply List.find?_eq_none.mpr
    intro f _ same
    exact other f (beq_iff_eq.mp same).symm

@[simp] theorem name_ne_default (f : Flag) : f.name ≠ "default" := by cases f <;> decide

end Flag

inductive Attribute where
  | flag (flag : Flag)
  | default (value : String)
deriving DecidableEq, Repr

namespace Attribute

/-- Two attributes of one kind do not stand on the same field. All defaults are of one kind. -/
inductive Kind where
  | flag (flag : Flag)
  | default
deriving DecidableEq, Repr

def kind : Attribute → Kind
  | .flag f => .flag f
  | .default _ => .default

/-- The word written after `@`. -/
def name : Attribute → String
  | .flag f => f.name
  | .default _ => "default"

def text : Attribute → String
  | .flag f => f.name
  | .default value => s!"default({value})"

/-- Reads a flag's name, or `default(...)`, whose value is trimmed. -/
def ofText (s : String) : Except SchemaError Attribute :=
  match Flag.ofName? s with
  | some f => .ok (.flag f)
  | none =>
    match Text.between? "default(" ")" s with
    | some value => .ok (.default (Text.trim value))
    | none => .error (.unknownAttribute s)

end Attribute

end SchemaPlan
