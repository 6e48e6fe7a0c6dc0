import SchemaPlan.Proofs.Json.Reader
import SchemaPlan.Proofs.Schema.Document
import SchemaPlan.Proofs.Schema.Filing
import SchemaPlan.Schema.Snapshot
import SchemaPlan.Source.Declaration

/-!
# Documents with keys

The same documents with each model filed under a key, and each field of it. Keys are given when a value
is filed, or come with a lock file, and only they are looked up.
-/

namespace SchemaPlan

structure FiledModel where
  name : Identifier
  fields : Filing Field

structure FiledDocument where
  models : Filing FiledModel

namespace FiledModel

open Source (Block Line Error Warning)

def ofFields (name : Identifier) (fields : List Field) : Except SchemaError FiledModel :=
  (Filing.collect Field.name (fun f => .duplicateField name.text f.text) [] fields).map (⟨name, ·⟩)

def ofEntries (name : Identifier) (entries : Model.Entries) : Except SchemaError FiledModel :=
  ofFields name (entries.map fun e => ⟨e.1, e.2.1, e.2.2⟩)

def reader : Json.Reader FiledModel :=
  Model.entryFormat.reader.checked fun e => (ofEntries e.1 e.2).mapError SchemaError.refusal

def ofBlock (b : Block) (source : String) : Except Error (FiledModel × List Warning) := do
  let name ← b.name.named modelName
  let (fields, warnings) ← Line.readAll source name [] (Line.ofBody b.body)
  let model ← (ofFields name fields).mapError (.invalidSchema · b.name.line b.name.span)
  return (model, warnings)

end FiledModel

namespace FiledDocument

open Source (Block Outline Error Token Warning)

instance : EmptyCollection FiledDocument := ⟨⟨[]⟩⟩

/-- Files a model under its name. The document is left behind whether or not this fails. -/
def insert (d : FiledDocument) (m : FiledModel) : FiledDocument × Except SchemaError Unit :=
  if d.models.contains m.name.text then (d, .error (.duplicateModel m.name.text))
  else (⟨d.models.put m.name m⟩, .ok ())

def insertAll (d : FiledDocument) : List FiledModel → Except SchemaError FiledDocument
  | [] => .ok d
  | m :: rest =>
    match d.insert m with
    | (_, .error e) => .error e
    | (d, .ok ()) => insertAll d rest

def ofModels (models : List FiledModel) : Except SchemaError FiledDocument := insertAll ∅ models

/-- Keeps the keys that come with the models. -/
def ofEntries (entries : Filing FiledModel) : Except SchemaError FiledDocument :=
  match entries.find? fun e => e.1 != e.2.name with
  | some (key, m) => .error (.modelNameMismatch key.text m.name.text)
  | none => .ok ⟨entries⟩

def reader : Json.Reader FiledDocument :=
  (Json.Reader.map readModelName Identifier.text FiledModel.reader).checked fun entries =>
    (ofEntries entries).mapError SchemaError.refusal

def decode (text : String) : Except SnapshotError FiledDocument :=
  if Text.trim text = "" then .ok ∅
  else (Json.decode reader text).mapError .ofJson

/-- A name is looked up before its model is inserted, and again when it is. -/
def readAll (source : String) (d : FiledDocument) :
    List Block → Except Error (FiledDocument × List Warning)
  | [] => .ok (d, [])
  | b :: rest => do
    let (model, warnings) ← FiledModel.ofBlock b source
    if d.models.contains model.name.text then
      .error (.duplicateModel model.name.text b.name.line b.name.span)
    else
      match d.insert model with
      | (_, .error e) => .error (.invalidSchema e b.name.line b.name.span)
      | (d, .ok ()) =>
        let (d, later) ← readAll source d rest
        return (d, warnings ++ later)

def parse (source : String) : Except Error (FiledDocument × List Warning) := do
  let tokens ← Token.tokenize source
  let outline := Outline.ofTokens tokens
  let (d, warnings) ← readAll source ∅ outline.blocks
  match outline.unclosed? with
  | none => return (d, warnings)
  | some (keyword, name) =>
    .error (.unbalancedBraces name.text keyword.line
      ⟨keyword.span.start, Text.byteLength source.toList⟩)

end FiledDocument

def Model.filed (m : Model) : FiledModel := ⟨m.name, .byName Field.name m.fields⟩

def Document.filed (d : Document) : FiledDocument :=
  ⟨.byName FiledModel.name (d.models.map Model.filed)⟩

namespace FiledModel

theorem ofFields_eq (name : Identifier) (fields : List Field) :
    ofFields name fields = (Model.ofFields name fields).map Model.filed := by
  have collected := Filing.collected_collect Field.name
    (fun f => .duplicateField name.text f.text) fields
  unfold ofFields
  generalize Filing.collect Field.name _ [] fields = result at collected ⊢
  cases collected with
  | kept distinct =>
    have formed : Model.ofFields name fields = .ok ⟨name, fields, distinct⟩ :=
      Model.ofFields_eq_ok_iff.mpr ⟨rfl, rfl⟩
    rw [formed]
    rfl
  | @refused before a after whole distinct known =>
    have first : firstRepeat? [] (fields.map Field.name) = some a.name := by
      rw [whole, List.map_append, List.map_cons]
      exact firstRepeat?_append distinct (fun _ _ => List.not_mem_nil) (.inl known)
    unfold Model.ofFields
    split
    · next none =>
      rw [first] at none
      cases none
    · next field found =>
      rw [first] at found
      cases found
      rfl

theorem recasts_reader : Json.Recasts Model.reader reader Model.filed := by
  have step (e : Identifier × Model.Entries) : True →
      (ofEntries e.1 e.2).mapError SchemaError.refusal =
        ((Model.ofEntries e.1 e.2).mapError SchemaError.refusal).map Model.filed := by
    intro _
    rw [ofEntries, ofFields_eq, mapError_map]
    rfl
  exact (Json.recasts_refl _).checked (fun _ _ _ => trivial) step

theorem ofBlock_eq (b : Source.Block) (source : String) :
    ofBlock b source = (b.read source).map (Prod.map Model.filed id) := by
  unfold ofBlock Source.Block.read
  rcases b.name.named modelName with e | name
  · rfl
  simp only [ok_bind]
  rcases Source.Line.readAll source name [] (Source.Line.ofBody b.body) with e | ⟨fields, warnings⟩
  · rfl
  simp only [ok_bind, ofFields_eq]
  rcases Model.ofFields name fields with e | m <;> rfl

end FiledModel

namespace FiledDocument

variable {d : Document} {m : Model}

theorem keys_filed (d : Document) : d.filed.models.keys = d.names := by
  rw [Document.filed, Filing.keys_byName, List.map_map]
  rfl

theorem contains_filed : d.filed.models.contains m.name.text = true ↔ d.Contains m.name := by
  rw [Filing.contains_text_iff, keys_filed]
  rfl

theorem filed_append {d' : Document} (h : d'.models = d.models ++ [m]) :
    d'.filed.models = d.filed.models ++ [(m.name, m.filed)] := by
  simp only [Document.filed, Filing.byName, h, List.map_append]
  rfl

theorem insert_filed (d : Document) (m : Model) :
    d.filed.insert m.filed =
      match d.insert m with
      | .ok d' => (d'.filed, .ok ())
      | .error e => (d.filed, .error e) := by
  by_cases known : d.Contains m.name
  · rw [Document.insert_of_contains known]
    exact if_pos (contains_filed.mpr known)
  · obtain ⟨d', inserted⟩ := Document.exists_insert known
    have fresh : m.name ∉ d.filed.models.keys := by rwa [keys_filed]
    have put : d.filed.models.put m.name m.filed = d'.filed.models := by
      rw [Filing.put_of_not_mem fresh, filed_append (Document.insert_eq_ok_iff.mp inserted)]
    rw [inserted]
    show d.filed.insert m.filed = (mk d'.filed.models, .ok ())
    rw [← put]
    exact if_neg (mt contains_filed.mp known)

theorem insertAll_filed (d : Document) (ms : List Model) :
    d.filed.insertAll (ms.map Model.filed) = (d.insertAll ms).map Document.filed := by
  induction ms generalizing d with
  | nil => rfl
  | cons m ms ih =>
    rw [List.map_cons, insertAll, insert_filed, Document.insertAll, List.foldlM_cons]
    rcases d.insert m with e | d'
    · rfl
    · exact ih d'

theorem ofModels_filed (ms : List Model) :
    ofModels (ms.map Model.filed) = (Document.ofModels ms).map Document.filed :=
  insertAll_filed ∅ ms

theorem readAll_filed (source : String) (d : Document) (bs : List Source.Block) :
    readAll source d.filed bs =
      (Source.Block.readAll source d bs).map (Prod.map Document.filed id) := by
  induction bs generalizing d with
  | nil => rfl
  | cons b bs ih =>
    rw [readAll, Source.Block.readAll, FiledModel.ofBlock_eq]
    rcases b.read source with e | ⟨m, warnings⟩
    · rfl
    have listed : d.filed.models.contains m.filed.name.text = true ↔ d.Contains m.name :=
      contains_filed
    simp only [Except.map, ok_bind, Prod.map_apply]
    rw [insert_filed]
    by_cases known : d.Contains m.name
    · rw [if_pos (listed.mpr known), Document.insert_of_contains known]
      rfl
    · obtain ⟨d', inserted⟩ := Document.exists_insert known
      rw [if_neg (mt listed.mp known), inserted]
      simp only [ih]
      rcases Source.Block.readAll source d' bs with e | ⟨later, warnings'⟩ <;> rfl

theorem parse_filed (source : String) :
    parse source = (Source.parse source).map fun r => (r.document.filed, r.warnings) := by
  unfold parse Source.parse
  rcases Source.Token.tokenize source with e | tokens
  · rfl
  have read : readAll source ∅ (Source.Outline.ofTokens tokens).blocks = _ :=
    readAll_filed source ∅ (Source.Outline.ofTokens tokens).blocks
  simp only [ok_bind, read]
  rcases Source.Block.readAll source ∅ (Source.Outline.ofTokens tokens).blocks with e | ⟨d, warnings⟩
  · rfl
  · rcases (Source.Outline.ofTokens tokens).unclosed? with _ | ⟨keyword, name⟩ <;> rfl

theorem ofEntries_filed {entries : List (Identifier × Model)}
    (distinct : (entries.map Prod.fst).Nodup) :
    ofEntries (entries.map (Prod.map id Model.filed)) =
      (Document.ofEntries entries).map Document.filed := by
  have searched : (entries.map (Prod.map id Model.filed)).find? (fun e => e.1 != e.2.name) =
      (entries.find? fun e => e.1 != e.2.name).map (Prod.map id Model.filed) := List.find?_map
  rw [ofEntries, searched, Document.ofEntries]
  cases found : entries.find? fun e => e.1 != e.2.name with
  | some e => rfl
  | none =>
    have named : ∀ e ∈ entries, e.1 = e.2.name := by simpa using found
    -- Keys are distinct, and no name differs from its key, so no name repeats.
    have names : (entries.map Prod.snd).map Model.name = entries.map Prod.fst := by
      rw [List.map_map]
      exact List.map_congr_left fun e he => (named e he).symm
    have formed : Document.ofModels (entries.map Prod.snd) =
        .ok ⟨entries.map Prod.snd, names ▸ distinct⟩ := Document.ofModels_eq_ok_iff.mpr rfl
    have kept : entries.map (Prod.map id Model.filed) =
        Filing.byName FiledModel.name ((entries.map Prod.snd).map Model.filed) := by
      rw [Filing.byName, List.map_map, List.map_map]
      exact List.map_congr_left fun e he => Prod.ext (named e he) rfl
    rw [formed]
    exact congrArg (fun models => Except.ok (mk models)) kept

theorem recasts_reader : Json.Recasts Document.reader reader Document.filed := by
  refine FiledModel.recasts_reader.map.checked Json.ensures_distinct_keys fun entries distinct => ?_
  rw [ofEntries_filed distinct, mapError_map]

theorem decode_filed (text : String) :
    decode text = (Document.decode text).map Document.filed := by
  unfold decode Document.decode
  split
  · rfl
  · rw [recasts_reader.decode, mapError_map]

end FiledDocument

end SchemaPlan
