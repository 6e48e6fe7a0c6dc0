import SchemaPlan.Schema.Stored

/-!
# Deltas

How two versions of a model differ, field by field.
-/

namespace SchemaPlan

/-- A field defined differently in two versions. -/
structure FieldChange where
  name : Identifier
  old : Field
  new : Field

namespace FieldChange

instance : BEq FieldChange where
  beq c d := c.name == d.name && c.old == d.old && c.new == d.new

def toJson (c : FieldChange) : Json :=
  .object [("name", .string c.name.text), ("old", c.old.toJson), ("new", c.new.toJson)]

end FieldChange

structure ModelDelta where
  added : List Field
  removed : List Identifier
  changed : List FieldChange
  /-- The fields of both versions come in another order. -/
  reordered : Bool

namespace ModelDelta

instance : BEq ModelDelta where
  beq d e := d.added == e.added && d.removed == e.removed && d.changed == e.changed &&
    d.reordered == e.reordered

/-- The names of the fields of `m` that `other` has too, in the order of `m`. -/
def shared (m other : Model) : List Identifier :=
  m.fieldNames.filter fun name => (other.field? name).isSome

def between (old new : Model) : ModelDelta where
  added := new.fields.filter fun f => (old.field? f.name).isNone
  removed := old.fieldNames.filter fun name => (new.field? name).isNone
  changed := new.fields.filterMap fun f =>
    match old.field? f.name with
    | some previous => if previous == f then none else some ⟨f.name, previous, f⟩
    | none => none
  reordered := shared old new != shared new old

def isEmpty (d : ModelDelta) : Bool :=
  d.added.isEmpty && d.removed.isEmpty && d.changed.isEmpty && !d.reordered

def toJson (d : ModelDelta) : Json :=
  .object [("added", .array (d.added.map Field.toJson)),
    ("removed", .strings (d.removed.map Identifier.text)),
    ("changed", .array (d.changed.map FieldChange.toJson)), ("reordered", .bool d.reordered)]

end ModelDelta

end SchemaPlan
