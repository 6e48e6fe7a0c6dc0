import SchemaPlan.Json.Value
import SchemaPlan.Schema.Document

/-!
# Stored form

How fields, models and documents are written as JSON values. Objects follow declaration order.
-/

namespace SchemaPlan

def AttributeSet.toJson (s : AttributeSet) : Json := .strings (s.members.map Attribute.text)

def Field.toJson (f : Field) : Json :=
  .object [("name", .string f.name.text), ("type", .string f.type.text),
    ("attributes", f.attributes.toJson)]

/-- A field filed under its name. -/
def Field.entry (f : Field) : String × Json :=
  (f.name.text, .object [("type", .string f.type.text), ("attributes", f.attributes.toJson)])

def Model.toJson (m : Model) : Json :=
  .object [("name", .string m.name.text), ("fields", .object (m.fields.map Field.entry))]

/-- A model filed under its name. -/
def Model.entry (m : Model) : String × Json := (m.name.text, m.toJson)

def Document.toJson (d : Document) : Json := .object (d.models.map Model.entry)

/-- The text of a lock file. -/
def Document.encode (d : Document) : String := d.toJson.pretty 0 ++ "\n"

end SchemaPlan
