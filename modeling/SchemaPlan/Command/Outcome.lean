import SchemaPlan.Command.Message
import SchemaPlan.Migration.Plan
import SchemaPlan.Settings.Settings

/-!
# Outcomes

What comes of comparing the document of the last sync with that of the schema.
-/

namespace SchemaPlan

structure Outcome where
  document : Document
  changes : ChangeSet
  plan : Plan

namespace Outcome

def of (settings : Settings) (old new : Document) : Outcome :=
  let changes := old.diff new
  ⟨new, changes, settings.plan.plan (some new) changes⟩

def render (r : Outcome) : Format → String
  | .human => r.changes.text ++ if r.changes.isEmpty then "" else "\n" ++ r.plan.text
  | .json =>
    (Json.object [("changes", r.changes.toJson), ("plan", r.plan.toJson)]).document
  | .plain =>
    .join (r.plan.operations.map fun op => s!"{op.action}\t{op.model}\t{op.table}\n") ++
      .join (r.plan.diagnostics.map fun d => s!"diagnostic\t{d.text}\n")

/-- The text of a file for the plan. -/
def planFile (r : Outcome) : String := r.plan.toJson.pretty 0 ++ "\n"

end Outcome

end SchemaPlan
