import SchemaPlan.Schema.AttributeSet
import SchemaPlan.Schema.FieldType

/-!
# Fields
-/

namespace SchemaPlan

structure Field where
  name : Identifier
  type : FieldType
  attributes : AttributeSet := ∅

namespace Field

instance : BEq Field where
  beq f g := f.name == g.name && f.type == g.type && f.attributes == g.attributes

def isNullable (f : Field) : Bool := f.attributes.hasFlag .nullable

/-- The field as a line of schema text. -/
def text (f : Field) : String :=
  s!"{f.name}: {f.type.text}" ++ .join (f.attributes.members.map fun a => " @" ++ a.text)

end Field

end SchemaPlan
