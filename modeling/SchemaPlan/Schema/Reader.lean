import SchemaPlan.Json.Reader
import SchemaPlan.Schema.Stored

/-!
# Reading stored schemas

Readers for the stored forms of names, types, attributes, fields, models and documents. A model's
fields and a document's models are objects whose keys are names, each of which occurs once.
-/

namespace SchemaPlan

open Json

/-- The refusal of a value that is no part of a schema. -/
def SchemaError.refusal (e : SchemaError) : Cause := .refused e.message

def readModelName (s : String) : Except Cause Identifier :=
  (modelName s).mapError SchemaError.refusal

def readFieldName (s : String) : Except Cause Identifier :=
  (fieldName s).mapError SchemaError.refusal

def modelNameReader : Reader Identifier := Reader.string.checked readModelName

def fieldNameReader : Reader Identifier := Reader.string.checked readFieldName

def FieldType.reader : Reader FieldType :=
  Reader.string.checked fun s => (ofText s).mapError SchemaError.refusal

def Attribute.reader : Reader Attribute :=
  Reader.string.checked fun s => (ofText s).mapError SchemaError.refusal

def AttributeSet.reader : Reader AttributeSet :=
  Reader.string.list.checked fun texts => (ofStored texts).mapError SchemaError.refusal

namespace Field

/-- The members of a field that were read. -/
structure Parts where
  name? : Option Identifier := none
  type? : Option FieldType := none
  attributes? : Option AttributeSet := none

def Parts.typeSlot : Slot Parts :=
  .of "type" type? (fun p t => { p with type? := some t }) FieldType.reader

def Parts.attributesSlot : Slot Parts :=
  .of "attributes" attributes? (fun p s => { p with attributes? := some s }) AttributeSet.reader

/-- A field filed under its name. -/
def entryFormat : RecordFormat Parts (FieldType × AttributeSet) where
  name := "FieldEntry"
  slots := [Parts.typeSlot, Parts.attributesSlot]
  start := {}
  finish p := do return (← required "type" p.type?, p.attributes?.getD ∅)

def format : RecordFormat Parts Field where
  name := "Field"
  slots := [.of "name" Parts.name? (fun p n => { p with name? := some n }) fieldNameReader,
    Parts.typeSlot, Parts.attributesSlot]
  start := {}
  finish p := do
    let name ← required "name" p.name?
    let type ← required "type" p.type?
    return ⟨name, type, p.attributes?.getD ∅⟩

end Field

namespace Model

abbrev Entries := List (Identifier × FieldType × AttributeSet)

structure Parts where
  name? : Option Identifier := none
  fields? : Option Entries := none

def entriesReader : Reader Entries :=
  .map readFieldName Identifier.text Field.entryFormat.reader

def entryFormat : RecordFormat Parts (Identifier × Entries) where
  name := "ModelEntry"
  slots := [.of "name" Parts.name? (fun p n => { p with name? := some n }) modelNameReader,
    .of "fields" Parts.fields? (fun p fs => { p with fields? := some fs }) entriesReader]
  start := {}
  finish p := do return (← required "name" p.name?, p.fields?.getD [])

def ofEntries (name : Identifier) (entries : Entries) : Except SchemaError Model :=
  ofFields name (entries.map fun e => ⟨e.1, e.2.1, e.2.2⟩)

def reader : Reader Model :=
  entryFormat.reader.checked fun e => (ofEntries e.1 e.2).mapError SchemaError.refusal

end Model

namespace Document

/-- Takes models filed under names, which have to be their own. -/
def ofEntries (entries : List (Identifier × Model)) : Except SchemaError Document :=
  match entries.find? fun e => e.1 != e.2.name with
  | some (key, m) => .error (.modelNameMismatch key.text m.name.text)
  | none => ofModels (entries.map Prod.snd)

def reader : Reader Document :=
  (Reader.map readModelName Identifier.text Model.reader).checked fun entries =>
    (ofEntries entries).mapError SchemaError.refusal

end Document

end SchemaPlan
