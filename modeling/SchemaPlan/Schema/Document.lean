import SchemaPlan.Schema.Model

/-!
# Documents

The models of one schema in declaration order. No two models share a name.
-/

namespace SchemaPlan

structure Document where
  models : List Model
  distinct : (models.map Model.name).Nodup

namespace Document

def empty : Document := ⟨[], by simp⟩

instance : EmptyCollection Document := ⟨empty⟩

@[simp] theorem models_empty : (∅ : Document).models = [] := rfl

def names (d : Document) : List Identifier := d.models.map Model.name

def get? (d : Document) (name : Identifier) : Option Model := d.models.find? (·.name == name)

def Contains (d : Document) (name : Identifier) : Prop := name ∈ d.names

instance (d : Document) (name : Identifier) : Decidable (d.Contains name) :=
  inferInstanceAs (Decidable (_ ∈ _))

/-- Appends a model whose name is new. -/
def insert (d : Document) (m : Model) : Except SchemaError Document :=
  if h : d.Contains m.name then .error (.duplicateModel m.name.text)
  else .ok ⟨d.models ++ [m], by
    simp only [List.map_append, List.map_cons, List.map_nil, List.nodup_append]
    refine ⟨d.distinct, by simp, ?_⟩
    intro a ha b hb
    simp only [List.mem_singleton] at hb
    rintro rfl
    exact h (hb ▸ ha)⟩

def insertAll (d : Document) (models : List Model) : Except SchemaError Document :=
  models.foldlM insert d

def ofModels (models : List Model) : Except SchemaError Document := insertAll ∅ models

instance : BEq Document where
  beq d e := d.models == e.models

end Document

end SchemaPlan
