import SchemaPlan.Proofs.Schema.Meaning
import SchemaPlan.Proofs.Schema.Printable
import SchemaPlan.Schema.Stored

/-!
# Storable documents

What a document may hold so that it is read back from a lock file. Types and attributes are stored as
texts, which have grammars of their own.
-/

namespace SchemaPlan

/-- A word that names no primitive is a type like a primitive. -/
def FieldType.Storable : FieldType → Prop
  | .primitive _ => True
  | .belongsTo _ => True
  | .other s => isIdentifier s.toList ∧ Primitive.ofName? s = none

def Attribute.Storable : Attribute → Prop
  | .flag _ => True
  | .default value => Text.trim value = value

def Field.Storable (f : Field) : Prop :=
  f.type.Storable ∧ ∀ a ∈ f.attributes.members, a.Storable

def Model.Storable (m : Model) : Prop := ∀ f ∈ m.fields, f.Storable

def Document.Storable (d : Document) : Prop := ∀ m ∈ d.models, m.Storable

theorem Document.Storable.of_beq {d e : Document} (h : d.Storable) (same : (d == e) = true) :
    e.Storable := by
  have models (m n : Model) (same : (m == n) = true) (h : m.Storable) : n.Storable :=
    forall_mem_of_forall₂ (Model.beq_iff.mp same).2 (fun _ _ => Field.all_of_beq) h
  exact forall_mem_of_forall₂ (Document.beq_iff.mp same) models h

theorem FieldType.Printable.storable {t : FieldType} (h : t.Printable) : t.Storable := by
  cases t with
  | primitive p => trivial
  | belongsTo target => trivial
  | other s => exact ⟨h.1, h.2.2⟩

theorem Attribute.Printable.storable {a : Attribute} (h : a.Printable) : a.Storable := by
  cases a with
  | flag f => trivial
  | default value => exact Text.trim_eq_self_iff.mpr h.2.1

/-- What can be printed can be stored. -/
theorem Document.Printable.storable {d : Document} (h : d.Printable) : d.Storable := by
  intro m hm f hf
  obtain ⟨type, attributes⟩ := (h m hm).2 f hf
  exact ⟨type.storable, fun a ha => (attributes a ha).storable⟩

namespace FieldType

theorem storedAs_text {t : FieldType} (h : t.Storable) : t.StoredAs t.text := by
  cases t with
  | primitive p => exact .word (isIdentifier_primitive p) (.primitive p)
  | other s => exact .word h.1 (.other (Primitive.ofName?_eq_none_iff.mp h.2))
  | belongsTo target =>
    have whole : (FieldType.belongsTo target).text = "belongsTo(" ++ target.text ++ ")" := by
      simp [text, toString, String.append_assoc]
    rw [whole]
    exact .relation (trim_identifier target).symm

theorem StoredAs.storable {s : String} {t : FieldType} (h : t.StoredAs s) : t.Storable := by
  cases h with
  | relation => trivial
  | word identifier named =>
    cases named with
    | primitive => trivial
    | other unknown => exact ⟨identifier, Primitive.ofName?_eq_none_iff.mpr unknown⟩

end FieldType

namespace Attribute

theorem storedAs_text {a : Attribute} (h : a.Storable) : a.StoredAs a.text := by
  cases a with
  | flag f => exact .flag f.not_mem_name f.trim_name
  | default value =>
    have trimmed : Text.trim value = value := h
    have whole : (Attribute.default value).text = "default(" ++ value ++ ")" := by
      simp [text, toString, String.append_assoc]
    have stored := StoredAs.default value
    rwa [trimmed, ← whole] at stored

theorem StoredAs.storable {s : String} {a : Attribute} (h : a.StoredAs s) : a.Storable := by
  cases h with
  | default value => exact Text.trim_trim value
  | flag | flagWith => trivial

end Attribute

namespace AttributeSet

/-- A set is read back from the texts of its members. -/
theorem ofStored_texts {s : AttributeSet} (h : ∀ a ∈ s.members, a.Storable) :
    ofStored (s.members.map Attribute.text) = .ok s := by
  have each : ∀ a ∈ s.members, (storedAttribute? ∘ Attribute.text) a = some a := by
    exact fun a ha => storedAttribute?_eq_some_iff.mpr (Attribute.storedAs_text (h a ha))
  have all : (s.members.map Attribute.text).filterMap storedAttribute? = s.members := by
    rw [List.filterMap_map, List.filterMap_congr each, List.filterMap_some]
  rw [ofStored, all]
  exact ofList_members s

theorem storable_of_ofStored {texts : List String} {s : AttributeSet}
    (h : ofStored texts = .ok s) : ∀ a ∈ s.members, a.Storable := by
  obtain ⟨-, members⟩ := ofList_eq_ok_iff.mp h
  intro a ha
  rw [members] at ha
  obtain ⟨text, -, found⟩ := List.mem_filterMap.mp (Attribute.mem_of_mem_firsts ha)
  exact (storedAttribute?_eq_some_iff.mp found).storable

end AttributeSet

end SchemaPlan
