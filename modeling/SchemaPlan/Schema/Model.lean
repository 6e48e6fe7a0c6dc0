import SchemaPlan.Schema.Field

/-!
# Models

A named entity with its fields in declaration order. No two fields share a name.
-/

namespace SchemaPlan

/-- The first entry of a list that occurs before, or among names already seen. -/
def firstRepeat? {α : Type} [DecidableEq α] (seen : List α) : List α → Option α
  | [] => none
  | a :: rest => if a ∈ seen then some a else firstRepeat? (a :: seen) rest

theorem firstRepeat?_eq_none_iff {α : Type} [DecidableEq α] {seen l : List α} :
    firstRepeat? seen l = none ↔ l.Nodup ∧ ∀ a ∈ l, a ∉ seen := by
  induction l generalizing seen with
  | nil => simp [firstRepeat?]
  | cons a rest ih =>
    unfold firstRepeat?
    split
    · next h => simp [h]
    · next h =>
      rw [ih]
      constructor
      · rintro ⟨nodup, fresh⟩
        have ha : a ∉ rest := fun h' => fresh a h' List.mem_cons_self
        refine ⟨List.nodup_cons.mpr ⟨ha, nodup⟩, ?_⟩
        intro b hb
        rcases List.mem_cons.mp hb with rfl | hb
        · exact h
        · exact fun hs => fresh b hb (List.mem_cons_of_mem _ hs)
      · rintro ⟨nodup, fresh⟩
        obtain ⟨ha, nodup⟩ := List.nodup_cons.mp nodup
        refine ⟨nodup, ?_⟩
        intro b hb hs
        rcases List.mem_cons.mp hs with rfl | hs
        · exact ha hb
        · exact fresh b (List.mem_cons_of_mem _ hb) hs

theorem nodup_of_firstRepeat? {α : Type} [DecidableEq α] {l : List α}
    (h : firstRepeat? [] l = none) : l.Nodup := (firstRepeat?_eq_none_iff.mp h).1

structure Model where
  name : Identifier
  fields : List Field
  distinct : (fields.map Field.name).Nodup

namespace Model

def ofFields (name : Identifier) (fields : List Field) : Except SchemaError Model :=
  match h : firstRepeat? [] (fields.map Field.name) with
  | none => .ok ⟨name, fields, nodup_of_firstRepeat? h⟩
  | some field => .error (.duplicateField name.text field.text)

def fieldNames (m : Model) : List Identifier := m.fields.map Field.name

def field? (m : Model) (name : Identifier) : Option Field := m.fields.find? (·.name == name)

/-- Attribute order does not count, field order does. -/
instance : BEq Model where
  beq m n := m.name == n.name && m.fields == n.fields

def text (m : Model) : String :=
  s!"model {m.name} \x7b\n" ++ .join (m.fields.map fun f => s!"  {f.text}\n") ++ "\x7d"

end Model

end SchemaPlan
