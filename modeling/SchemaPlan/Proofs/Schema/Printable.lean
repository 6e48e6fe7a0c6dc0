import SchemaPlan.Proofs.Schema.Equality
import SchemaPlan.Proofs.Text.Blank

/-!
# Printable documents

What a document may hold so that its print is read back.
-/

namespace SchemaPlan

/-- A word other than `belongsTo` that names no primitive is a type like a primitive. -/
def FieldType.Printable : FieldType → Prop
  | .primitive _ => True
  | .belongsTo target => target.text ≠ "model"
  | .other s => isIdentifier s.toList ∧ s ≠ "belongsTo" ∧ Primitive.ofName? s = none

def Attribute.Printable : Attribute → Prop
  | .flag _ => True
  | .default value =>
    value ≠ "" ∧ Text.Trimmed value.toList ∧
      ')' ∉ value.toList ∧ '\r' ∉ value.toList ∧ '\n' ∉ value.toList

def Field.Printable (f : Field) : Prop :=
  f.type.Printable ∧ ∀ a ∈ f.attributes.members, a.Printable

def Model.Printable (m : Model) : Prop :=
  m.name.text ≠ "model" ∧ ∀ f ∈ m.fields, f.Printable

def Document.Printable (d : Document) : Prop := ∀ m ∈ d.models, m.Printable

theorem Model.Printable.of_beq {m n : Model} (h : m.Printable) (same : (m == n) = true) :
    n.Printable := by
  obtain ⟨name, fields⟩ := Model.beq_iff.mp same
  exact ⟨name ▸ h.1, forall_mem_of_forall₂ fields (fun _ _ => Field.all_of_beq) h.2⟩

theorem Document.Printable.of_beq {d e : Document} (h : d.Printable) (same : (d == e) = true) :
    e.Printable :=
  forall_mem_of_forall₂ (Document.beq_iff.mp same) (fun _ _ same h => h.of_beq same) h

end SchemaPlan
