import Mathlib.Data.List.Forall2
import Mathlib.Data.List.Nodup
import Mathlib.Data.List.Perm.Subperm
import SchemaPlan.Proofs.Schema.AttributeSet
import SchemaPlan.Proofs.Schema.Document
import SchemaPlan.Schema.Timestamps

/-!
# Equality of documents

Equality passes over the order of attributes on a field and over nothing else.
-/

namespace SchemaPlan

theorem beq_list_iff {α : Type} [BEq α] {as bs : List α} :
    (as == bs) = true ↔ List.Forall₂ (fun a b => (a == b) = true) as bs := by
  induction as generalizing bs with
  | nil => cases bs <;> simp
  | cons a as ih =>
    cases bs with
    | nil => simp
    | cons b bs => rw [List.cons_beq_cons, Bool.and_eq_true, List.forall₂_cons, ih]

theorem AttributeSet.beq_iff {s t : AttributeSet} : (s == t) = true ↔ s.members.Perm t.members := by
  have nodup : s.members.Nodup := List.Nodup.of_map _ s.distinct
  have unfolded : (s == t) = true ↔
      s.members.length = t.members.length ∧ s.members ⊆ t.members := by
    show (_ && _) = true ↔ _
    simp [AttributeSet.contains, List.subset_def]
  rw [unfolded]
  constructor
  · rintro ⟨length, subset⟩
    exact (nodup.subperm subset).perm_of_length_le (Nat.le_of_eq length.symm)
  · intro perm
    exact ⟨perm.length_eq, perm.subset⟩

@[ext] theorem Field.ext {f g : Field} (name : f.name = g.name) (type : f.type = g.type)
    (attributes : f.attributes = g.attributes) : f = g := by
  cases f; cases g; cases name; cases type; cases attributes; rfl

theorem Field.beq_iff {f g : Field} :
    (f == g) = true ↔ f.name = g.name ∧ f.type = g.type ∧
      f.attributes.members.Perm g.attributes.members := by
  rw [← AttributeSet.beq_iff]
  show (_ && _ && _) = true ↔ _
  simp [and_assoc]

theorem Model.beq_iff {m n : Model} :
    (m == n) = true ↔ m.name = n.name ∧
      List.Forall₂ (fun f g => (f == g) = true) m.fields n.fields := by
  rw [← beq_list_iff]
  show (_ && _) = true ↔ _
  simp

theorem Document.beq_iff {d e : Document} :
    (d == e) = true ↔ List.Forall₂ (fun m n => (m == n) = true) d.models e.models :=
  beq_list_iff

/-- What is said of the type of a field, and of each of its attributes, is said of equal fields
together. -/
theorem Field.all_of_beq {p : FieldType → Prop} {q : Attribute → Prop} {f g : Field}
    (same : (f == g) = true) (h : p f.type ∧ ∀ a ∈ f.attributes.members, q a) :
    p g.type ∧ ∀ a ∈ g.attributes.members, q a := by
  obtain ⟨-, type, attributes⟩ := beq_iff.mp same
  exact ⟨type ▸ h.1, fun a ha => h.2 a (attributes.mem_iff.mpr ha)⟩

theorem Field.beq_refl (f : Field) : (f == f) = true := beq_iff.mpr ⟨rfl, rfl, .refl _⟩

instance : PartialEquivBEq Field where
  symm h := by
    obtain ⟨name, type, attributes⟩ := Field.beq_iff.mp h
    exact Field.beq_iff.mpr ⟨name.symm, type.symm, attributes.symm⟩
  trans h h' := by
    obtain ⟨name, type, attributes⟩ := Field.beq_iff.mp h
    obtain ⟨name', type', attributes'⟩ := Field.beq_iff.mp h'
    exact Field.beq_iff.mpr ⟨name.trans name', type.trans type', attributes.trans attributes'⟩

theorem Model.beq_refl (m : Model) : (m == m) = true :=
  beq_iff.mpr ⟨rfl, List.forall₂_same.mpr fun f _ => f.beq_refl⟩

instance : PartialEquivBEq Model where
  symm h := by
    obtain ⟨name, fields⟩ := Model.beq_iff.mp h
    exact Model.beq_iff.mpr ⟨name.symm, (fields.imp fun _ _ => BEq.symm).flip⟩
  trans h h' := by
    obtain ⟨name, fields⟩ := Model.beq_iff.mp h
    obtain ⟨name', fields'⟩ := Model.beq_iff.mp h'
    have trans (f g k : Field) (first : (f == g) = true) (second : (g == k) = true) :
        (f == k) = true := BEq.trans first second
    exact Model.beq_iff.mpr ⟨name.trans name', forall₂_trans trans fields fields'⟩

theorem Document.beq_refl (d : Document) : (d == d) = true :=
  beq_iff.mpr (List.forall₂_same.mpr fun m _ => m.beq_refl)

/-- Fields that equal the pair of timestamps are that pair, since these have one attribute. -/
theorem timestampFields_of_beq {fields : List Field} (h : (fields == timestampFields) = true) :
    fields = timestampFields := by
  have alone (name : Identifier) {f : Field} (h : (f == timestampField name) = true) :
      f = timestampField name := by
    obtain ⟨hname, type, perm⟩ := Field.beq_iff.mp h
    exact Field.ext hname type (AttributeSet.ext (List.perm_singleton.mp perm))
  cases beq_list_iff.mp h with
  | cons first rest =>
    cases rest with
    | cons second rest =>
      cases rest
      rw [alone _ first, alone _ second]
      rfl

end SchemaPlan
