import SchemaPlan.Proofs.Json.Reader
import SchemaPlan.Proofs.Schema.Storable
import SchemaPlan.Proofs.Source.RoundTrip
import SchemaPlan.Schema.Snapshot

/-!
# Writing and reading lock files

A storable document is read back from its lock file as it was, and what is read from any lock file is
storable.
-/

namespace SchemaPlan

open Json

theorem AttributeSet.reads_toJson {s : AttributeSet} (h : ∀ a ∈ s.members, a.Storable) :
    Reads AttributeSet.reader s.toJson s := by
  have texts : List.Forall₂ (Reads Reader.string)
      ((s.members.map Attribute.text).map Json.string) (s.members.map Attribute.text) :=
    List.forall₂_map_left_iff.mpr (List.forall₂_same.mpr fun text _ => reads_string text)
  apply (reads_list texts).checked
  exact mapError_eq_ok_iff.mpr (ofStored_texts h)

theorem FieldType.reads_text {t : FieldType} (h : t.Storable) :
    Reads FieldType.reader (.string t.text) t := by
  apply (reads_string t.text).checked
  exact mapError_eq_ok_iff.mpr (ofText_eq_ok_iff.mpr (storedAs_text h))

/-- A part of a record is filled with what its reader gives. -/
theorem Json.reads_fill {σ α : Type} {key : String} {part? : σ → Option α} {put : σ → α → σ}
    {r : Reader α} {v : Json} {a : α} (h : Reads r v a) (s : σ) :
    Reads ((Slot.of key part? put r).fill s) v (put s a) := by
  intro t denotes
  simp [Slot.of, h t denotes, Except.map]

theorem Field.reads_entry {f : Field} (h : f.Storable) :
    Reads Field.entryFormat.reader f.entry.2 (f.type, f.attributes) := by
  have fills : Fills Field.entryFormat Field.entryFormat.start
      [("type", .string f.type.text), ("attributes", f.attributes.toJson)]
      ⟨none, some f.type, some f.attributes⟩ := by
    refine .cons rfl rfl (reads_fill (FieldType.reads_text h.1) _) ?_
    exact .cons rfl rfl (reads_fill (AttributeSet.reads_toJson h.2) _) .nil
  exact reads_record fills rfl

theorem Model.reads_entries {m : Model} (h : m.Storable) :
    Reads Model.entriesReader (.object (m.fields.map Field.entry))
      (m.fields.map fun f => (f.name, f.type, f.attributes)) := by
  apply reads_map
  · apply List.forall₂_map_left_iff.mpr
    apply List.forall₂_map_right_iff.mpr
    apply List.forall₂_same.mpr
    intro f hf
    exact ⟨mapError_eq_ok_iff.mpr (fieldName_eq_ok_iff.mpr rfl), Field.reads_entry (h f hf)⟩
  · rw [List.map_map]
    exact m.distinct

theorem Model.reads_toJson {m : Model} (h : m.Storable) : Reads Model.reader m.toJson m := by
  have name : Reads modelNameReader (.string m.name.text) m.name :=
    (reads_string m.name.text).checked (mapError_eq_ok_iff.mpr (modelName_eq_ok_iff.mpr rfl))
  have fills : Fills Model.entryFormat Model.entryFormat.start
      [("name", .string m.name.text), ("fields", .object (m.fields.map Field.entry))]
      ⟨some m.name, some (m.fields.map fun f => (f.name, f.type, f.attributes))⟩ := by
    refine .cons rfl rfl (reads_fill name _) ?_
    exact .cons rfl rfl (reads_fill (reads_entries h) _) .nil
  have entry : Reads Model.entryFormat.reader m.toJson
      (m.name, m.fields.map fun f => (f.name, f.type, f.attributes)) :=
    reads_record fills rfl
  apply entry.checked
  apply mapError_eq_ok_iff.mpr
  apply ofFields_eq_ok_iff.mpr
  refine ⟨rfl, ?_⟩
  rw [List.map_map]
  exact (List.map_id m.fields).symm

namespace Document

theorem reads_toJson {d : Document} (h : d.Storable) : Reads Document.reader d.toJson d := by
  have entries : Reads (Reader.map readModelName Identifier.text Model.reader) d.toJson
      (d.models.map fun m => (m.name, m)) := by
    apply reads_map
    · apply List.forall₂_map_left_iff.mpr
      apply List.forall₂_map_right_iff.mpr
      apply List.forall₂_same.mpr
      intro m hm
      exact ⟨mapError_eq_ok_iff.mpr (modelName_eq_ok_iff.mpr rfl), Model.reads_toJson (h m hm)⟩
    · rw [List.map_map]
      exact d.distinct
  have named : (d.models.map fun m => (m.name, m)).find? (fun e => e.1 != e.2.name) = none := by
    apply List.find?_eq_none.mpr
    intro e he
    obtain ⟨m, -, rfl⟩ := List.mem_map.mp he
    simp
  apply entries.checked
  apply mapError_eq_ok_iff.mpr
  simp only [ofEntries, named]
  apply ofModels_eq_ok_iff.mpr
  rw [List.map_map]
  exact (List.map_id d.models).symm

theorem ofStrings_toJson (d : Document) : OfStrings d.toJson := by
  have attributes (s : AttributeSet) : OfStrings s.toJson := by
    apply OfStrings.array
    intro v hv
    obtain ⟨text, -, rfl⟩ := List.mem_map.mp hv
    exact .string text
  have field (f : Field) : OfStrings f.entry.2 := by
    apply OfStrings.object
    simpa using ⟨.string f.type.text, attributes f.attributes⟩
  have model (m : Model) : OfStrings m.toJson := by
    apply OfStrings.object
    have fields : OfStrings (.object (m.fields.map Field.entry)) := by
      apply OfStrings.object
      intro e he
      obtain ⟨f, -, rfl⟩ := List.mem_map.mp he
      exact field f
    simpa using ⟨.string m.name.text, fields⟩
  apply OfStrings.object
  intro e he
  obtain ⟨m, -, rfl⟩ := List.mem_map.mp he
  exact model m

/-- The text of a lock file starts with a brace. -/
theorem trim_encode (d : Document) : Text.trim d.encode ≠ "" := by
  intro blank
  have brace : '{' ∈ d.encode.toList := by
    rw [encode, toJson]
    cases d.models with
    | nil => simp [pretty]
    | cons m models => simp [pretty]
  exact absurd (Text.trim_eq_empty_iff.mp blank '{' brace) (by decide)

theorem decode_encode {d : Document} (h : d.Storable) : decode d.encode = .ok d := by
  rw [decode, if_neg d.trim_encode]
  exact mapError_eq_ok_iff.mpr (decode_pretty d.ofStrings_toJson (reads_toJson h))

end Document

theorem Json.ensures_fill {σ α : Type} {key : String} {part? : σ → Option α} {put : σ → α → σ}
    {r : Reader α} {p : α → Prop} {q : σ → Prop} (h : Ensures r p) {s : σ}
    (step : ∀ a, p a → q (put s a)) : Ensures ((Slot.of key part? put r).fill s) q := by
  intro t s' filled
  obtain ⟨a, read, rfl⟩ := map_eq_ok_iff.mp filled
  exact step a (h t a read)

theorem AttributeSet.reader_ensures :
    Ensures AttributeSet.reader fun s => ∀ a ∈ s.members, a.Storable :=
  ensures_checked (p := fun _ => True) (fun _ _ _ => trivial) fun _ _ _ read =>
    storable_of_ofStored (mapError_eq_ok_iff.mp read)

theorem FieldType.reader_ensures : Ensures FieldType.reader Storable :=
  ensures_checked (p := fun _ => True) (fun _ _ _ => trivial) fun _ _ _ read =>
    (ofText_eq_ok_iff.mp (mapError_eq_ok_iff.mp read)).storable

theorem Field.entryFormat_ensures :
    Ensures Field.entryFormat.reader fun e => e.1.Storable ∧ ∀ a ∈ e.2.members, a.Storable := by
  let inv (p : Field.Parts) : Prop :=
    (∀ t ∈ p.type?, t.Storable) ∧ ∀ s ∈ p.attributes?, ∀ a ∈ s.members, a.Storable
  have start : inv {} := by simp [inv]
  refine ensures_record inv start ?_ ?_
  · intro slot hslot s hs
    simp only [entryFormat, List.mem_cons, List.not_mem_nil, or_false] at hslot
    rcases hslot with rfl | rfl
    · exact ensures_fill FieldType.reader_ensures fun t ht => ⟨by simpa using ht, hs.2⟩
    · exact ensures_fill AttributeSet.reader_ensures fun t ht => ⟨hs.1, by simpa using ht⟩
  · intro s e hs read
    obtain ⟨type, found, read⟩ := bind_eq_ok_iff.mp read
    cases read
    refine ⟨hs.1 type (required_eq_ok_iff.mp found), ?_⟩
    cases h : s.attributes? with
    | none => simp
    | some set => exact hs.2 set h

theorem Model.reader_ensures : Ensures Model.reader Storable := by
  let good (entries : Model.Entries) : Prop :=
    ∀ e ∈ entries, e.2.1.Storable ∧ ∀ a ∈ e.2.2.members, a.Storable
  have parts : Ensures Model.entryFormat.reader fun e => good e.2 := by
    let inv (p : Model.Parts) : Prop := ∀ entries ∈ p.fields?, good entries
    have start : inv {} := by simp [inv]
    refine ensures_record inv start ?_ ?_
    · intro slot hslot s hs
      simp only [entryFormat, List.mem_cons, List.not_mem_nil, or_false] at hslot
      rcases hslot with rfl | rfl
      · exact ensures_fill (p := fun _ => True) (fun _ _ _ => trivial) fun _ _ => hs
      · exact ensures_fill (ensures_map Field.entryFormat_ensures) fun entries h => by
          simpa [inv, good] using h
    · intro s e hs read
      obtain ⟨name, -, read⟩ := bind_eq_ok_iff.mp read
      cases read
      cases h : s.fields? with
      | none => simp [good]
      | some entries => exact hs entries h
  refine ensures_checked parts fun e m hentries read => ?_
  obtain ⟨-, fields⟩ := ofFields_eq_ok_iff.mp (mapError_eq_ok_iff.mp read)
  intro f hf
  rw [fields] at hf
  obtain ⟨entry, hentry, rfl⟩ := List.mem_map.mp hf
  exact hentries entry hentry

theorem Document.reader_ensures : Ensures Document.reader Storable := by
  refine ensures_checked (ensures_map Model.reader_ensures) fun entries d hentries read => ?_
  have read := mapError_eq_ok_iff.mp read
  unfold ofEntries at read
  split at read
  · cases read
  · intro m hm
    rw [ofModels_eq_ok_iff.mp read] at hm
    obtain ⟨entry, hentry, rfl⟩ := List.mem_map.mp hm
    exact hentries entry hentry

theorem Document.storable_of_decode {text : String} {d : Document} (h : decode text = .ok d) :
    d.Storable := by
  unfold decode at h
  split at h
  · cases h
    intro m hm
    cases hm
  · exact of_decode reader_ensures (mapError_eq_ok_iff.mp h)

/-- Writing and reading a lock file: the documents that are read, from schema texts or from lock files,
are storable, and the storable ones are read back from their own lock files. -/
theorem decode_encode_iff_storable :
    (∀ source r, Source.parse source = .ok r → r.document.Storable) ∧
      (∀ text d, Document.decode text = .ok d → d.Storable) ∧
      (∀ d : Document, d.Storable → Document.decode d.encode = .ok d) ∧
      (∀ d : Document,
        (∃ e, Document.decode d.encode = .ok e ∧ (e == d) = true) ↔ d.Storable) ∧
      ∀ text d, Document.decode text = .ok d → Document.decode d.encode = .ok d := by
  refine ⟨fun source r h => (printable_of_parse h).storable,
    fun text d => Document.storable_of_decode, fun d => Document.decode_encode, fun d => ?_,
    fun text d h => Document.decode_encode (Document.storable_of_decode h)⟩
  constructor
  · intro h
    obtain ⟨e, read, same⟩ := h
    exact (Document.storable_of_decode read).of_beq same
  · intro h
    exact ⟨d, Document.decode_encode h, d.beq_refl⟩

end SchemaPlan
