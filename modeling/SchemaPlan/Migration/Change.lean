import SchemaPlan.Schema.Stored

/-!
# Changes

What has to happen to the models of one document for another to result: creations in the order of
the new document, removals in the order of the old, updates in the order of the new.
-/

namespace SchemaPlan

inductive Change where
  | create (model : Model)
  | drop (name : Identifier)
  | update (name : Identifier) (old new : Model)

abbrev ChangeSet := List Change

namespace Change

instance : BEq Change where
  beq
    | .create m, .create n => m == n
    | .drop a, .drop b => a == b
    | .update a old new, .update b old' new' => a == b && old == old' && new == new'
    | _, _ => false

def modelName : Change → Identifier
  | .create m => m.name
  | .drop name => name
  | .update name _ _ => name

def text : Change → String
  | .create m => s!"CREATE model '{m.name}' with {m.fields.length} fields"
  | .drop name => s!"DROP model '{name}'"
  | .update name _ _ => s!"UPDATE model '{name}'"

def toJson : Change → Json
  | .create m => .object [("change", .string "create_model"), ("model", m.toJson)]
  | .drop name => .object [("change", .string "drop_model"), ("name", .string name.text)]
  | .update name old new =>
    .object [("change", .string "update_model"), ("name", .string name.text),
      ("old", old.toJson), ("new", new.toJson)]

end Change

/-- Lines numbered from one. -/
def numbered (lines : List String) : List String :=
  lines.mapIdx fun i line => s!"  {i + 1}. {line}"

namespace ChangeSet

def created (cs : ChangeSet) : List Identifier :=
  cs.filterMap fun | .create m => some m.name | _ => none

def dropped (cs : ChangeSet) : List Identifier :=
  cs.filterMap fun | .drop name => some name | _ => none

def updated (cs : ChangeSet) : List Identifier :=
  cs.filterMap fun | .update name _ _ => some name | _ => none

def text (cs : ChangeSet) : String :=
  match cs with
  | [] => "No changes detected\n"
  | cs => s!"{cs.length} change(s)\n" ++ .join ((numbered (cs.map Change.text)).map (· ++ "\n"))

def toJson (cs : ChangeSet) : Json := .array (cs.map Change.toJson)

end ChangeSet

namespace Document

def creations (old new : Document) : ChangeSet :=
  (new.models.filter fun m => !decide (old.Contains m.name)).map .create

def removals (old new : Document) : ChangeSet :=
  (old.names.filter fun name => !decide (new.Contains name)).map .drop

def updates (old new : Document) : ChangeSet :=
  new.models.filterMap fun m =>
    match old.get? m.name with
    | some previous => if previous == m then none else some (.update m.name previous m)
    | none => none

/-- The changes that lead from one document to another. -/
def diff (old new : Document) : ChangeSet :=
  creations old new ++ removals old new ++ updates old new

end Document

end SchemaPlan
