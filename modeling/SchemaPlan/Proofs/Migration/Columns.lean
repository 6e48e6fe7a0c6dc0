import Mathlib.Data.List.Nodup
import SchemaPlan.Proofs.Migration.Reflection
import SchemaPlan.Proofs.Schema.Identifier

/-!
# Columns of one table

The column of a relationship is named after its relation, and a field of the same model may have this
name too. Nothing else gives a table two columns of one name.
-/

namespace SchemaPlan

/-- The column of the field has another name than the field: the field is a relationship, and its name
does not end in `_id` already. -/
structure Field.IsRenamed (f : Field) : Prop where
  relationship : ∃ target, f.type = .belongsTo target
  bare : ∀ relation, relation ≠ "" → f.name.text ≠ relation ++ "_id"

/-- No field has the name of the column of a renamed one. -/
def Model.LeavesColumns (m : Model) : Prop :=
  ∀ f ∈ m.fields, f.IsRenamed → ∀ g ∈ m.fields, g.name.text ≠ f.name.text ++ "_id"

theorem Identifier.text_ne_append (name : Identifier) : name.text ≠ name.text ++ "_id" := by
  intro same
  have length := congrArg String.length same
  simp at length

namespace Field

/-- A column has the name of its field, with `_id` after it if the field is renamed. -/
theorem name_column_cases (f : Field) (tableName : Identifier → String) :
    f.IsRenamed ∧ (f.column tableName).name = f.name.text ++ "_id" ∨
      ¬ f.IsRenamed ∧ (f.column tableName).name = f.name.text := by
  have plain (scalar : ∀ target, f.type ≠ .belongsTo target) : ¬ f.IsRenamed :=
    fun renamed => renamed.relationship.elim scalar
  have derived := columnOf_column tableName f
  generalize f.column tableName = col at derived
  cases derived with
  | @relation target relation _ related named =>
    generalize spelt : f.name.text = field at named
    cases named with
    | stripped solid => exact .inr ⟨fun renamed => renamed.bare _ solid spelt, rfl⟩
    | whole bare =>
      exact .inl ⟨⟨⟨target, related⟩, fun relation solid => spelt ▸ bare relation solid⟩, rfl⟩
  | primitive scalar | mapped scalar | unmapped scalar =>
    exact .inr ⟨plain (by simp [scalar]), rfl⟩

end Field

theorem Model.nodup_columns_iff (m : Model) (tableName : Identifier → String) :
    ((m.fields.map fun f => f.column tableName).map Column.name).Nodup ↔ m.LeavesColumns := by
  have named {f g : Field} (hf : f ∈ m.fields) (hg : g ∈ m.fields)
      (same : f.name.text = g.name.text) : f = g :=
    List.inj_on_of_nodup_map m.distinct hf hg (Identifier.ext same)
  rw [List.map_map, List.nodup_map_iff_inj_on (.of_map Field.name m.distinct)]
  simp only [Function.comp_apply]
  constructor
  · intro apart f hf renamed g hg taken
    obtain ⟨-, fColumn⟩ | ⟨whole, -⟩ := f.name_column_cases tableName
    · obtain ⟨renamed', -⟩ | ⟨-, gColumn⟩ := g.name_column_cases tableName
      · exact renamed'.bare f.name.text f.name.text_ne_empty taken
      · have same := apart f hf g hg (by rw [fColumn, gColumn, taken])
        exact f.name.text_ne_append (same ▸ taken)
    · exact whole renamed
  · intro apart f hf g hg same
    obtain ⟨fRenamed, fColumn⟩ | ⟨-, fColumn⟩ := f.name_column_cases tableName <;>
      obtain ⟨gRenamed, gColumn⟩ | ⟨-, gColumn⟩ := g.name_column_cases tableName <;>
      rw [fColumn, gColumn] at same
    · exact named hf hg ((String.append_left_inj "_id").mp same)
    · exact absurd same.symm (apart f hf fRenamed g hg)
    · exact absurd same (apart g hg gRenamed f hf)
    · exact named hf hg same

/-- A table that is created has no two columns of one name, unless a field has the name that a
relationship gives to its column. -/
theorem nodup_columns_of_plan (o : PlanOptions) (known? : Option Document) (changes : ChangeSet) :
    List.Forall₂ (fun c op => ∀ m, c = .create m →
      ((op.columns.map Column.name).Nodup ↔ m.LeavesColumns))
      changes (o.plan known? changes).operations := by
  refine List.forall₂_map_right_iff.mpr (List.forall₂_same.mpr ?_)
  rintro _ - m rfl
  exact m.nodup_columns_iff o.tableNaming.tableName

/-- A relationship and a field with the name of its column, in a model that is formed. -/
theorem columns_of_author :
    let post : Identifier := ⟨"Post", by decide⟩
    let author : Field := ⟨⟨"author", by decide⟩, .belongsTo ⟨"User", by decide⟩, ∅⟩
    let authorId : Field := ⟨⟨"author_id", by decide⟩, .primitive .integer, ∅⟩
    ∃ m, Model.ofFields post [author, authorId] = .ok m ∧
      ∃ op, (PlanOptions.plan {} none [.create m]).operations = [op] ∧
        op.columns.map Column.name = ["author_id", "author_id"] ∧
        ¬ (op.columns.map Column.name).Nodup := by
  intro post author authorId
  refine ⟨⟨post, [author, authorId], by decide⟩, rfl, _, rfl, ?_⟩
  have relation : relationName "author" = "author" := by decide
  have names : (Operation.ofChange (PlanOptions.tableNaming {}).tableName
      (.create ⟨post, [author, authorId], by decide⟩)).columns.map Column.name =
        ["author_id", "author_id"] := by
    simp [Operation.ofChange, Operation.columns, author, authorId, Field.column, relation]
  exact ⟨names, by simp [names]⟩

end SchemaPlan
