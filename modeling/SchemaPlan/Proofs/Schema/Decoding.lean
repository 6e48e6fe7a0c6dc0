import SchemaPlan.Proofs.Json.Extraction
import SchemaPlan.Proofs.Schema.AttributeSet
import SchemaPlan.Proofs.Schema.Meaning
import SchemaPlan.Schema.Snapshot

/-!
# What a lock file says

A document that is read from a lock file says what the file says, in the same order. A file that
says two things about one model, field or default is refused.
-/

namespace SchemaPlan

open Json

def FieldType.Described (v : Content) (t : FieldType) : Prop :=
  ∃ s, v.IsString s ∧ t.StoredAs s

/-- An array of texts that say attributes, at most one of them a default. The first of each kind are
kept. -/
def AttributeSet.Described (v : Content) (set : AttributeSet) : Prop :=
  ∃ texts as, v.IsArray Content.IsString texts ∧ Told (fun s a => a.StoredAs s) texts as ∧
    Attribute.OneDefault as ∧ set.members = Attribute.firsts as

def Field.keys : List String := ["type", "attributes"]

def Model.keys : List String := ["name", "fields"]

structure Field.DescribedBy (es : List (String × Content)) (f : Field) : Prop where
  type : Once FieldType.Described (valuesOf "type" es) f.type
  attributes : AtMostOnce AttributeSet.Described ∅ (valuesOf "attributes" es) f.attributes

def Field.Described (v : Content) (f : Field) : Prop :=
  ∃ es, v.IsRecord Field.keys es ∧ f.DescribedBy es

/-- An object that holds the fields under their names, in their order. -/
inductive Model.FieldsDescribed : Content → List Field → Prop
  | object {ms fs} : List.Forall₂ (fun m f => Names m.1 f.name.text ∧ Field.Described m.2 f) ms fs →
      FieldsDescribed (.object ms) fs

structure Model.DescribedBy (es : List (String × Content)) (m : Model) : Prop where
  name : Once Content.IsString (valuesOf "name" es) m.name.text
  fields : AtMostOnce FieldsDescribed [] (valuesOf "fields" es) m.fields

def Model.Described (v : Content) (m : Model) : Prop :=
  ∃ es, v.IsRecord Model.keys es ∧ m.DescribedBy es

/-- An object that holds the models under their names, in their order. -/
inductive Document.Described : Content → Document → Prop
  | object {ms d} :
      List.Forall₂ (fun e m => Names e.1 m.name.text ∧ Model.Described e.2 m) ms d.models →
      Described (.object ms) d

theorem FieldType.gives_reader : Gives FieldType.reader FieldType.Described :=
  (gives_string.checked _).imp fun _ _ h => by
    obtain ⟨s, isString, read⟩ := h
    exact ⟨s, isString, ofText_eq_ok_iff.mp (mapError_eq_ok_iff.mp read)⟩

theorem AttributeSet.gives_reader : Gives AttributeSet.reader AttributeSet.Described :=
  (gives_string.list.checked _).imp fun _ _ h => by
    obtain ⟨texts, isArray, read⟩ := h
    obtain ⟨one, members⟩ := ofList_eq_ok_iff.mp (mapError_eq_ok_iff.mp read)
    exact ⟨texts, _, isArray, told_storedAttribute?.mpr rfl, one, members⟩

theorem Field.gives_entry :
    Gives Field.entryFormat.reader fun v e => ∀ name, Field.Described v ⟨name, e.1, e.2⟩ := by
  have tracks := RecordFormat.tracks_pair (f := entryFormat) rfl (by decide) ⟨rfl, rfl⟩
    (fun _ _ => ⟨rfl, rfl⟩) (fun _ _ => ⟨rfl, rfl⟩) FieldType.gives_reader AttributeSet.gives_reader
  refine tracks.gives.imp fun v e h name => ?_
  obtain ⟨es, p, record, ⟨types, attributes⟩, finish⟩ := h
  obtain ⟨type, found, finish⟩ := bind_eq_ok_iff.mp finish
  cases finish
  rw [required_eq_ok_iff.mp found] at types
  exact ⟨es, record, types.once, attributes.atMostOnce ∅⟩

theorem modelName_gives_reader : Gives modelNameReader fun v name => v.IsString name.text :=
  (gives_string.checked _).imp fun v name h => by
    obtain ⟨s, isString, read⟩ := h
    rw [modelName_eq_ok_iff.mp (mapError_eq_ok_iff.mp read)]
    exact isString

theorem Model.gives_entries :
    Gives Model.entriesReader fun v entries =>
      FieldsDescribed v (entries.map fun e => ⟨e.1, e.2.1, e.2.2⟩) :=
  Field.gives_entry.map.imp fun v entries h => by
    obtain ⟨same⟩ := h
    apply FieldsDescribed.object
    apply List.forall₂_map_right_iff.mpr
    refine same.imp fun m e h => ?_
    obtain ⟨⟨s, names, read⟩, described⟩ := h
    rw [fieldName_eq_ok_iff.mp (mapError_eq_ok_iff.mp read)]
    exact ⟨names, described e.1⟩

theorem Model.gives_reader : Gives Model.reader Model.Described := by
  have tracks := RecordFormat.tracks_pair (f := entryFormat) rfl (by decide) ⟨rfl, rfl⟩
    (fun _ _ => ⟨rfl, rfl⟩) (fun _ _ => ⟨rfl, rfl⟩) modelName_gives_reader gives_entries
  refine (tracks.gives.checked _).imp fun v m h => ?_
  obtain ⟨⟨name, entries⟩, ⟨es, p, record, ⟨names, fields⟩, finish⟩, read⟩ := h
  obtain ⟨found, required, finish⟩ := bind_eq_ok_iff.mp finish
  cases finish
  rw [required_eq_ok_iff.mp required] at names
  obtain ⟨rfl, same⟩ := ofFields_eq_ok_iff.mp (mapError_eq_ok_iff.mp read)
  refine ⟨es, record, names.once, ?_⟩
  rw [same]
  exact (fields.atMostOnce []).map

theorem Document.ofEntries_eq_ok {entries : List (Identifier × Model)} {d : Document}
    (h : ofEntries entries = .ok d) :
    d.models = entries.map Prod.snd ∧ ∀ e ∈ entries, e.1 = e.2.name := by
  unfold ofEntries at h
  split at h
  · cases h
  · next named =>
    refine ⟨ofModels_eq_ok_iff.mp h, fun e he => ?_⟩
    simpa using List.find?_eq_none.mp named e he

theorem Document.gives_reader : Gives Document.reader Document.Described :=
  (Model.gives_reader.map.checked _).imp fun v d h => by
    obtain ⟨entries, ⟨same⟩, read⟩ := h
    obtain ⟨models, named⟩ := ofEntries_eq_ok (mapError_eq_ok_iff.mp read)
    apply Document.Described.object
    rw [models]
    apply List.forall₂_map_right_iff.mpr
    refine (forall₂_and_mem same).imp fun m e h => ?_
    obtain ⟨⟨⟨s, names, key⟩, described⟩, -, mem⟩ := h
    rw [← named e mem, modelName_eq_ok_iff.mp (mapError_eq_ok_iff.mp key)]
    exact ⟨names, described⟩

/-- Two members have the same key, however each of them is spelt. -/
def Repeats (ms : List (List Char × Content)) : Prop :=
  ∃ a b s, [a, b].Sublist ms ∧ Names a.1 s ∧ Names b.1 s

/-- Two of some texts say a default. -/
def TwoDefaults (texts : List Content) : Prop :=
  ∃ v w s s', [v, w].Sublist texts ∧ v.IsString s ∧ w.IsString s' ∧
    (∃ value, (Attribute.default value).StoredAs s) ∧
    ∃ value, (Attribute.default value).StoredAs s'

/-- A value that says two things about one model, field or default, or files a model under another
name than its own. -/
inductive Contradictory : Content → Prop
  | model {ms} : Repeats ms → Contradictory (.object ms)
  | name {ms e es v key name} : e ∈ ms → e.2.IsRecord Model.keys es → v ∈ valuesOf "name" es →
      Names e.1 key → v.IsString name → key ≠ name → Contradictory (.object ms)
  | field {ms e es fs} : e ∈ ms → e.2.IsRecord Model.keys es → .object fs ∈ valuesOf "fields" es →
      Repeats fs → Contradictory (.object ms)
  | default {ms e es fs f parts texts} : e ∈ ms → e.2.IsRecord Model.keys es →
      .object fs ∈ valuesOf "fields" es → f ∈ fs → f.2.IsRecord Field.keys parts →
      .array texts ∈ valuesOf "attributes" parts → TwoDefaults texts → Contradictory (.object ms)

theorem not_repeats {β : Type} {ms : List (List Char × Content)} {bs : List β}
    {name : β → Identifier} {P : Content → β → Prop} (distinct : (bs.map name).Nodup)
    (h : List.Forall₂ (fun m b => Names m.1 (name b).text ∧ P m.2 b) ms bs) : ¬ Repeats ms := by
  rintro ⟨m, m', s, pair, first, second⟩
  obtain ⟨b, b', pair', ⟨names, -⟩, ⟨names', -⟩⟩ := pair_sublist_of_forall₂ h pair
  have different : name b ≠ name b' := by
    have each := List.pairwise_map.mp distinct
    exact List.pairwise_iff_forall_sublist.mp each pair'
  apply different
  apply Identifier.ext
  exact (names.unique first).trans (second.unique names')

theorem not_twoDefaults {texts : List Content} {set : AttributeSet}
    (h : AttributeSet.Described (.array texts) set) : ¬ TwoDefaults texts := by
  rintro ⟨v, w, s, s', pair, first, second, ⟨value, default⟩, value', default'⟩
  obtain ⟨strings, _, ⟨same⟩, told, one, -⟩ := h
  obtain ⟨t, t', pair', isString, isString'⟩ := pair_sublist_of_forall₂ same pair
  obtain rfl := isString.unique first
  obtain rfl := isString'.unique second
  obtain rfl := AttributeSet.told_storedAttribute?.mp told
  rw [← AttributeSet.storedAttribute?_eq_some_iff] at default default'
  have defaults : [.default value, .default value'].Sublist
      (strings.filterMap AttributeSet.storedAttribute?) := by
    simpa [default, default'] using pair'.filterMap AttributeSet.storedAttribute?
  exact List.pairwise_iff_forall_sublist.mp one defaults ⟨rfl, rfl⟩

/-- What a document says is free of contradictions. -/
theorem Document.Described.not_contradictory {v : Content} {d : Document} (h : Described v d) :
    ¬ Contradictory v := by
  obtain ⟨models⟩ := h
  intro contradictory
  cases contradictory with
  | model repeated => exact not_repeats d.distinct models repeated
  | name mem record hv key name different =>
    obtain ⟨m, -, names, described⟩ := exists_mem_of_forall₂ models mem
    have own := (record.property described).name.of_mem hv
    exact different ((key.unique names).trans (own.unique name))
  | field mem record hv repeated =>
    obtain ⟨m, -, -, described⟩ := exists_mem_of_forall₂ models mem
    obtain ⟨fields⟩ := (record.property described).fields.of_mem hv
    exact not_repeats m.distinct fields repeated
  | default mem record hv hf parts hw two =>
    obtain ⟨m, -, -, described⟩ := exists_mem_of_forall₂ models mem
    obtain ⟨fields⟩ := (record.property described).fields.of_mem hv
    obtain ⟨f, -, -, described⟩ := exists_mem_of_forall₂ fields hf
    exact not_twoDefaults ((parts.property described).attributes.of_mem hw) two

/-- Reading a lock file that is not blank: a text that is read as a document is the text of a value
that says what the document says, model for model and field for field. A text whose value contradicts
itself is refused. -/
theorem decode_faithful {text : String} (solid : Text.trim text ≠ "") :
    (∀ d, Document.decode text = .ok d →
      (∃ v, Written text v) ∧ (∀ v, Written text v → Document.Described v d) ∧ d.names.Nodup ∧
        ∀ m ∈ d.models, m.fieldNames.Nodup) ∧
      ∀ v, Written text v → Contradictory v → ∃ e, Document.decode text = .error e := by
  have described (d : Document) (read : Document.decode text = .ok d) :
      (∃ v, Written text v) ∧ ∀ v, Written text v → Document.Described v d := by
    rw [Document.decode, if_neg solid] at read
    exact Document.gives_reader.decode (mapError_eq_ok_iff.mp read)
  refine ⟨fun d read => ?_, fun v written contradictory => ?_⟩
  · obtain ⟨isWritten, fits⟩ := described d read
    exact ⟨isWritten, fits, d.distinct, fun m _ => m.distinct⟩
  · cases read : Document.decode text with
    | error e => exact ⟨e, rfl⟩
    | ok d => exact absurd contradictory ((described d read).2 v written).not_contradictory

/-- A lock file with an escaped key, entries of both forms, a repeated flag and members that are not
known, and one with a key that stands there twice, spelt in two ways. -/
theorem decode_faithful_of_escaped_keys :
    let text := "\x7b\"\\u0055\": [\"U\", \x7b\"a\": \x7b\"type\": \"date\", \"x\": [1e5, " ++
      "\"\\ud800\"], \"attributes\": [\"unique\", \"y\", \"unique\"]\x7d, \"b\": [\"json\"]\x7d]\x7d"
    let repeated := "\x7b\"a\":[\"a\"],\"\\u0061\":[\"a\"]\x7d"
    (∃ v d, Written text v ∧ Document.Described v d ∧
      d.models.map Model.text = ["model U \x7b\n  a: date @unique\n  b: json\n\x7d"]) ∧
    ∃ v e, Written repeated v ∧ Contradictory v ∧ Document.decode repeated = .error e := by
  intro text repeated
  constructor
  · have models : (Document.decode text).map (·.models.map Model.text) =
        .ok ["model U \x7b\n  a: date @unique\n  b: json\n\x7d"] := by decide +kernel
    obtain ⟨d, read, same⟩ := map_eq_ok_iff.mp models
    obtain ⟨⟨v, written⟩, described, -⟩ := (decode_faithful (by decide +kernel)).1 d read
    exact ⟨v, d, written, described v written, same⟩
  · have plain : Spells ['a'] ['a'] := .plain (by decide) (by decide) (by decide) .nil
    have quad : IsQuad ['0', '0', '6', '1'] 0x61 :=
      .intro (i := 0) (j := 0) (k := 6) (l := 1) (by decide) (by decide) (by decide) (by decide)
    have escaped : Spells ['\\', 'u', '0', '0', '6', '1'] ['a'] := .code quad (by decide) .nil
    let entry : Content := .array [.atom (.string ['a'])]
    let v : Content := .object [(['a'], entry), (['\\', 'u', '0', '0', '6', '1'], entry)]
    have member {raw rest : List Char} {ls : List Lexeme} (key : StringText raw)
        (more : Lexed rest ls) :
        Lexed ('"' :: (raw ++ '"' :: ':' :: '[' :: '"' :: (['a'] ++ '"' :: ']' :: rest)))
          (.atom (.string raw) :: .mark ':' :: (entry.lexemes ++ ls)) := by
      apply Lexed.string key
      apply Lexed.mark (by decide)
      apply Lexed.mark (by decide)
      exact .string plain.stringText (.mark (by decide) more)
    have written : Written repeated v := by
      have last := member escaped.stringText (.mark (c := '}') (by decide) .nil)
      have first := member plain.stringText (.mark (c := ',') (by decide) last)
      have whole := Lexed.mark (c := '{') (by decide) first
      unfold Written
      simpa [repeated, v, entry, Content.lexemes, Content.moreItems, Content.moreMembers]
        using whole
    have contradictory : Contradictory v := .model ⟨_, _, "a", List.Sublist.refl _, plain, escaped⟩
    obtain ⟨e, refused⟩ := (decode_faithful (by decide +kernel)).2 v written contradictory
    exact ⟨v, e, written, contradictory, refused⟩

end SchemaPlan
