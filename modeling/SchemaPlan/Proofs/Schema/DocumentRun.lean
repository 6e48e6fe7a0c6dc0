import SchemaPlan.Proofs.Schema.FiledDocument

/-!
# Runs over documents

Whatever documents are formed from, one after the other, the keys of models and of fields are their
names, each of which occurs once.
-/

namespace SchemaPlan

/-- How a model comes about before it is inserted. Its name can be changed, its fields cannot. -/
inductive Draft where
  | formed (name : Identifier) (fields : List Field)
  | stored (tree : Json.Tree)
  | renamed (draft : Draft) (name : Identifier)

namespace Draft

def model? : Draft → Option Model
  | .formed name fields => (Model.ofFields name fields).toOption
  | .stored tree => (Model.reader tree).toOption
  | .renamed draft name => draft.model?.map fun m => { m with name }

def filed? : Draft → Option FiledModel
  | .formed name fields => (FiledModel.ofFields name fields).toOption
  | .stored tree => (FiledModel.reader tree).toOption
  | .renamed draft name => draft.filed?.map fun m => { m with name }

end Draft

/-- What is done next: one model is inserted, or another document takes the place of this one. -/
inductive DocumentStep where
  | insert (draft : Draft)
  | load (drafts : List Draft)
  | parse (source : String)
  | decode (text : String)

/-- The document after a step. A step that fails leaves it alone. -/
def Document.after (d : Document) : DocumentStep → Document
  | .insert draft => (draft.model?.bind fun m => (d.insert m).toOption).getD d
  | .load drafts => ((drafts.mapM Draft.model?).bind fun ms => (ofModels ms).toOption).getD d
  | .parse source => ((Source.parse source).toOption.map fun r => r.document).getD d
  | .decode text => (decode text).toOption.getD d

def Document.run (steps : List DocumentStep) : Document := steps.foldl after ∅

def FiledDocument.after (d : FiledDocument) : DocumentStep → FiledDocument
  | .insert draft => (draft.filed?.map fun m => (d.insert m).1).getD d
  | .load drafts => ((drafts.mapM Draft.filed?).bind fun ms => (ofModels ms).toOption).getD d
  | .parse source => ((parse source).toOption.map Prod.fst).getD d
  | .decode text => (decode text).toOption.getD d

def FiledDocument.run (steps : List DocumentStep) : FiledDocument := steps.foldl after ∅

/-- What comes of a model that is inserted. -/
inductive FiledDocument.Inserted (d : FiledDocument) (m : FiledModel) :
    FiledDocument × Except SchemaError Unit → Prop
  | known : m.name ∈ d.models.keys → Inserted d m (d, .error (.duplicateModel m.name.text))
  | fresh : m.name ∉ d.models.keys → Inserted d m (⟨d.models ++ [(m.name, m)]⟩, .ok ())

/-- The document is a map by names, and so is each of its models. -/
structure FiledDocument.Faithful (d : FiledDocument) : Prop where
  models : d.models.Faithful FiledModel.name
  fields : ∀ m ∈ d.models.values, m.fields.Faithful Field.name

/-- Names are listed and looked up as keys are. -/
structure Document.AnswersAs (d : Document) (r : FiledDocument) : Prop where
  names : d.names = r.models.keys
  contains : ∀ name : Identifier, d.Contains name ↔ r.models.contains name.text = true
  get? : ∀ name : Identifier, (d.get? name).map Model.filed = r.models.get? name.text
  fieldNames : ∀ m ∈ d.models, m.fieldNames = m.filed.fields.keys
  field? : ∀ m ∈ d.models, ∀ name : Identifier, m.field? name = m.filed.fields.get? name.text
  insert : ∀ m : Model, r.insert m.filed = match d.insert m with
    | .ok d' => (d'.filed, .ok ())
    | .error e => (r, .error e)

theorem toOption_map {ε α β : Type} (x : Except ε α) (f : α → β) :
    (x.map f).toOption = x.toOption.map f := by
  cases x <;> rfl

namespace Draft

theorem filed?_eq (draft : Draft) : draft.filed? = draft.model?.map Model.filed := by
  induction draft with
  | formed name fields => rw [filed?, FiledModel.ofFields_eq, toOption_map, model?]
  | stored tree => rw [filed?, FiledModel.recasts_reader, toOption_map, model?]
  | renamed draft name ih =>
    rw [filed?, ih, model?, Option.map_map, Option.map_map]
    rfl

theorem mapM_filed? (drafts : List Draft) :
    drafts.mapM filed? = (drafts.mapM model?).map (List.map Model.filed) := by
  induction drafts with
  | nil => rfl
  | cons draft drafts ih =>
    rw [List.mapM_cons, List.mapM_cons, filed?_eq, ih]
    cases draft.model? with
    | none => rfl
    | some m => cases drafts.mapM model? <;> rfl

end Draft

theorem FiledDocument.after_filed (d : Document) (step : DocumentStep) :
    d.filed.after step = (d.after step).filed := by
  cases step with
  | insert draft =>
    rw [after, Draft.filed?_eq, Document.after]
    cases draft.model? with
    | none => rfl
    | some m =>
      show (d.filed.insert m.filed).1 = ((d.insert m).toOption.getD d).filed
      rw [insert_filed]
      cases d.insert m <;> rfl
  | load drafts =>
    rw [after, Draft.mapM_filed?, Document.after]
    cases drafts.mapM Draft.model? with
    | none => rfl
    | some ms =>
      show (ofModels (ms.map Model.filed)).toOption.getD d.filed =
        ((Document.ofModels ms).toOption.getD d).filed
      rw [ofModels_filed]
      cases Document.ofModels ms <;> rfl
  | parse source =>
    rw [after, parse_filed, Document.after]
    cases Source.parse source <;> rfl
  | decode text =>
    rw [after, decode_filed, Document.after]
    cases Document.decode text <;> rfl

theorem FiledDocument.run_eq (steps : List DocumentStep) : run steps = (Document.run steps).filed := by
  have after_all (d : Document) :
      steps.foldl after d.filed = (steps.foldl Document.after d).filed := by
    induction steps generalizing d with
    | nil => rfl
    | cons step steps ih => rw [List.foldl_cons, List.foldl_cons, after_filed, ih]
  exact after_all ∅

theorem FiledDocument.inserted_insert (d : FiledDocument) (m : FiledModel) :
    d.Inserted m (d.insert m) := by
  rw [insert]
  split
  · next known => exact .known (Filing.contains_text_iff.mp known)
  · next fresh =>
    have fresh := mt Filing.contains_text_iff.mpr fresh
    rw [Filing.put_of_not_mem fresh]
    exact .fresh fresh

/-- Inserting models one after the other is collecting them. -/
theorem Document.insertAll_byName (d : Document) (ms : List Model) :
    (d.insertAll ms).map (fun d => Filing.byName Model.name d.models) =
      Filing.collect Model.name (fun name => .duplicateModel name.text)
        (.byName Model.name d.models) ms := by
  induction ms generalizing d with
  | nil => rfl
  | cons m ms ih =>
    have listed : (Filing.byName Model.name d.models).contains m.name.text = true ↔
        d.Contains m.name := Filing.contains_byName
    rw [insertAll, List.foldlM_cons, Filing.collect]
    by_cases known : d.Contains m.name
    · rw [if_pos (listed.mpr known), insert_of_contains known]
      rfl
    · obtain ⟨d', inserted⟩ := exists_insert known
      rw [if_neg (mt listed.mp known), inserted, Filing.put_byName known,
        ← insert_eq_ok_iff.mp inserted, ← ih]
      rfl

theorem Model.ofFields_byName (name : Identifier) (fields : List Field) :
    (ofFields name fields).map (fun m => Filing.byName Field.name m.fields) =
      Filing.collect Field.name (fun f => .duplicateField name.text f.text) [] fields := by
  have filed : (FiledModel.ofFields name fields).map FiledModel.fields =
      (ofFields name fields).map fun m => .byName Field.name m.fields := by
    rw [FiledModel.ofFields_eq]
    cases ofFields name fields <;> rfl
  rw [← filed, FiledModel.ofFields]
  cases Filing.collect Field.name _ [] fields <;> rfl

theorem Model.faithful_filed (m : Model) : m.filed.fields.Faithful Field.name :=
  Filing.faithful_byName m.distinct

theorem Document.faithful_filed (d : Document) : d.filed.Faithful := by
  have distinct : ((d.models.map Model.filed).map FiledModel.name).Nodup := by
    rw [List.map_map]
    exact d.distinct
  refine { models := Filing.faithful_byName distinct, fields := fun m hm => ?_ }
  rw [filed, Filing.values_byName] at hm
  obtain ⟨m, -, rfl⟩ := List.mem_map.mp hm
  exact m.faithful_filed

theorem Document.answersAs_filed (d : Document) : d.AnswersAs d.filed where
  names := (FiledDocument.keys_filed d).symm
  contains name := by
    rw [Filing.contains_text_iff, FiledDocument.keys_filed]
    rfl
  get? name := by
    rw [filed, Filing.get?_byName, List.find?_map]
    rfl
  fieldNames _ _ := Filing.keys_byName.symm
  field? _ _ name := (Filing.get?_byName name).symm
  insert := FiledDocument.insert_filed d

/-- Documents and models are maps by name, whatever they come from, and they are refused at the first
name to come up again. -/
theorem documents_are_maps (steps : List DocumentStep) :
    FiledDocument.run steps = (Document.run steps).filed ∧
      (FiledDocument.run steps).Faithful ∧
      (Document.run steps).AnswersAs (FiledDocument.run steps) ∧
      (∀ m, (FiledDocument.run steps).Inserted m ((FiledDocument.run steps).insert m)) ∧
      (∀ models, Filing.Collected Model.name (fun name => .duplicateModel name.text) models
        ((Document.ofModels models).map fun d => .byName Model.name d.models)) ∧
      ∀ name fields, Filing.Collected Field.name (fun f => .duplicateField name.text f.text) fields
        ((Model.ofFields name fields).map fun m => .byName Field.name m.fields) := by
  rw [FiledDocument.run_eq]
  refine ⟨rfl, (Document.run steps).faithful_filed, (Document.run steps).answersAs_filed,
    FiledDocument.inserted_insert _, fun models => ?_, fun name fields => ?_⟩
  · rw [Document.ofModels, Document.insertAll_byName]
    exact Filing.collected_collect Model.name _ models
  · rw [Model.ofFields_byName]
    exact Filing.collected_collect Field.name _ fields

end SchemaPlan
