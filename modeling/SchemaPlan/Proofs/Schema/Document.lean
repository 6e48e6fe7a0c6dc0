import SchemaPlan.Proofs.Keys
import SchemaPlan.Proofs.Result
import SchemaPlan.Schema.Document

/-!
# Forming models and documents

Names, models and documents are formed exactly from texts, fields and models that fit.
-/

namespace SchemaPlan

theorem modelName_eq_ok_iff {s : String} {name : Identifier} :
    modelName s = .ok name ↔ name.text = s := by
  rw [← Identifier.ofString?_eq_some_iff, modelName]
  rcases Identifier.ofString? s with _ | found <;> simp

theorem fieldName_eq_ok_iff {s : String} {name : Identifier} :
    fieldName s = .ok name ↔ name.text = s := by
  rw [← Identifier.ofString?_eq_some_iff, fieldName]
  rcases Identifier.ofString? s with _ | found <;> simp

/-- A name that came up before is the first to come up again if those before it are distinct. -/
theorem firstRepeat?_append {α : Type} [DecidableEq α] {seen before after : List α} {a : α}
    (distinct : before.Nodup) (fresh : ∀ b ∈ before, b ∉ seen) (repeated : a ∈ before ∨ a ∈ seen) :
    firstRepeat? seen (before ++ a :: after) = some a := by
  induction before generalizing seen with
  | nil =>
    have known : a ∈ seen := repeated.resolve_left List.not_mem_nil
    simp [firstRepeat?, known]
  | cons b before ih =>
    obtain ⟨alone, distinct⟩ := List.nodup_cons.mp distinct
    obtain ⟨new, fresh⟩ := List.forall_mem_cons.mp fresh
    rw [List.cons_append, firstRepeat?, if_neg new]
    apply ih distinct
    · intro c hc known
      rcases List.mem_cons.mp known with rfl | known
      · exact alone hc
      · exact fresh c hc known
    · rw [List.mem_cons] at repeated ⊢
      tauto

namespace Model

@[ext] theorem ext {m n : Model} (name : m.name = n.name) (fields : m.fields = n.fields) :
    m = n := by
  cases m; cases n; cases name; cases fields; rfl

theorem ofFields_eq_ok_iff {name : Identifier} {fields : List Field} {m : Model} :
    ofFields name fields = .ok m ↔ m.name = name ∧ m.fields = fields := by
  unfold ofFields
  split
  · rw [Except.ok.injEq, Model.ext_iff]
    exact and_congr eq_comm eq_comm
  · next field found =>
    apply iff_of_false (by simp)
    rintro ⟨-, rfl⟩
    rw [firstRepeat?_eq_none_iff.mpr ⟨m.distinct, by simp⟩] at found
    cases found

end Model

namespace Document

@[ext] theorem ext {d e : Document} (h : d.models = e.models) : d = e := by
  cases d; cases e; cases h; rfl

theorem get?_eq_some_iff {d : Document} {name : Identifier} {m : Model} :
    d.get? name = some m ↔ m ∈ d.models ∧ m.name = name := find?_key_eq_some_iff d.distinct

theorem insert_of_contains {d : Document} {m : Model} (known : d.Contains m.name) :
    d.insert m = .error (.duplicateModel m.name.text) := dif_pos known

theorem exists_insert {d : Document} {m : Model} (fresh : ¬ d.Contains m.name) :
    ∃ d', d.insert m = .ok d' := ⟨_, dif_neg fresh⟩

theorem insert_eq_ok_iff {d d' : Document} {m : Model} :
    d.insert m = .ok d' ↔ d'.models = d.models ++ [m] := by
  unfold insert
  split
  · next known =>
    apply iff_of_false (by simp)
    intro e
    have distinct := d'.distinct
    rw [e, List.map_append, List.nodup_append] at distinct
    exact distinct.2.2 m.name known m.name (by simp) rfl
  · rw [Except.ok.injEq, Document.ext_iff]
    exact eq_comm

theorem contains_iff_of_models {d d' : Document} {m : Model}
    (h : d'.models = d.models ++ [m]) (name : Identifier) :
    d'.Contains name ↔ d.Contains name ∨ name = m.name := by
  simp [Contains, names, h]

theorem insertAll_eq_ok_iff {d d' : Document} {ms : List Model} :
    d.insertAll ms = .ok d' ↔ d'.models = d.models ++ ms := by
  induction ms generalizing d with
  | nil =>
    have done : d.insertAll [] = .ok d := rfl
    rw [done, Except.ok.injEq, List.append_nil, Document.ext_iff]
    exact eq_comm
  | cons m ms ih =>
    have step : d.insertAll (m :: ms) = d.insert m >>= fun d => d.insertAll ms := by
      simp [insertAll]
    rw [step, bind_eq_ok_iff]
    constructor
    · rintro ⟨joined, head, tail⟩
      rw [ih.mp tail, insert_eq_ok_iff.mp head, List.append_assoc, List.singleton_append]
    · intro h
      have fresh : ((d.models ++ [m]).map Model.name).Nodup := by
        have distinct := d'.distinct
        rw [h, ← List.singleton_append, ← List.append_assoc, List.map_append] at distinct
        exact (List.nodup_append.mp distinct).1
      refine ⟨⟨d.models ++ [m], fresh⟩, insert_eq_ok_iff.mpr rfl, ih.mpr ?_⟩
      rw [h, List.append_assoc, List.singleton_append]

theorem ofModels_eq_ok_iff {ms : List Model} {d : Document} :
    ofModels ms = .ok d ↔ d.models = ms := insertAll_eq_ok_iff

end Document

end SchemaPlan
