import SchemaPlan.Migration.Plan
import SchemaPlan.Schema.Reader

/-!
# Reading stored columns

Readers for the stored forms of columns and of the words that a plan uses.
-/

namespace SchemaPlan

open Json

/-- One of the values of a list, by its name. -/
def namedReader {α : Type} (all : List α) (name : α → String) : Reader α :=
  (Reader.variant (all.map name)).checked fun s =>
    match all.find? (name · == s) with
    | some a => .ok a
    | none => .error (.unknownVariant s (all.map name))

def Storage.reader : Reader Storage := namedReader all name

def PendingKind.reader : Reader PendingKind := namedReader all name

def TableNaming.reader : Reader TableNaming := namedReader all name

namespace Constraints

structure Parts where
  nullable? : Option Bool := none
  primary? : Option Bool := none
  unique? : Option Bool := none
  autoIncrement? : Option Bool := none
  default? : Option (Option String) := none

def format : RecordFormat Parts Constraints where
  name := "ColumnConstraints"
  slots := [.of "nullable" Parts.nullable? (fun p b => { p with nullable? := some b }) .bool,
    .of "primary" Parts.primary? (fun p b => { p with primary? := some b }) .bool,
    .of "unique" Parts.unique? (fun p b => { p with unique? := some b }) .bool,
    .of "auto_increment" Parts.autoIncrement? (fun p b => { p with autoIncrement? := some b })
      .bool,
    .of "default" Parts.default? (fun p v => { p with default? := some v }) Reader.string.optional]
  start := {}
  finish p := do
    let nullable ← required "nullable" p.nullable?
    let primary ← required "primary" p.primary?
    let unique ← required "unique" p.unique?
    let autoIncrement ← required "auto_increment" p.autoIncrement?
    return ⟨nullable, primary, unique, autoIncrement, p.default?.join⟩

end Constraints

namespace Reference

structure Parts where
  relation? : Option String := none
  model? : Option Identifier := none
  table? : Option String := none

def format : RecordFormat Parts Reference where
  name := "Reference"
  slots := [.of "relation" Parts.relation? (fun p s => { p with relation? := some s }) .string,
    .of "model" Parts.model? (fun p m => { p with model? := some m }) modelNameReader,
    .of "table" Parts.table? (fun p s => { p with table? := some s }) .string]
  start := {}
  finish p := do
    let relation ← required "relation" p.relation?
    let model ← required "model" p.model?
    let table ← required "table" p.table?
    return ⟨relation, model, table⟩

end Reference

namespace Column

structure Parts where
  name? : Option String := none
  storage? : Option Storage := none
  constraints? : Option Constraints := none
  reference? : Option (Option Reference) := none

def format : RecordFormat Parts Column where
  name := "Column"
  slots := [.of "name" Parts.name? (fun p s => { p with name? := some s }) .string,
    .of "storage" Parts.storage? (fun p s => { p with storage? := some s }) Storage.reader,
    .of "constraints" Parts.constraints? (fun p c => { p with constraints? := some c })
      Constraints.format.reader,
    .of "references" Parts.reference? (fun p r => { p with reference? := some r })
      Reference.format.reader.optional]
  start := {}
  finish p := do
    let name ← required "name" p.name?
    let storage ← required "storage" p.storage?
    let constraints ← required "constraints" p.constraints?
    return ⟨name, storage, constraints, p.reference?.join⟩

end Column

end SchemaPlan
