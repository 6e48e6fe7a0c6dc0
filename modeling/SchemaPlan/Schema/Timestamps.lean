import SchemaPlan.Schema.Field

/-!
# Timestamps

The pair of fields that the word `timestamps` stands for on a line of its own.
-/

namespace SchemaPlan

def timestampField (name : Identifier) : Field :=
  ⟨name, .primitive .timestamp, AttributeSet.insert ∅ (.flag .nullable)⟩

def createdAt : Identifier := ⟨"created_at", by decide⟩

def updatedAt : Identifier := ⟨"updated_at", by decide⟩

def timestampFields : List Field := [timestampField createdAt, timestampField updatedAt]

end SchemaPlan
