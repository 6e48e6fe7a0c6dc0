import SchemaPlan.Command.Load
import SchemaPlan.Command.Outcome
import SchemaPlan.Command.Summary
import SchemaPlan.Schema.Print

/-!
# Running commands

Every command reads the settings and the schema. `plan` compares the schema with the lock file, and
`sync` then makes the lock file say what the schema says.
-/

namespace SchemaPlan

variable {m : Type → Type} [Monad m] [Host m]

def warningLines (o : Options) (path : String) (declared : Source.Declared) : String :=
  .join (declared.warnings.map fun w => o.warning s!"{path}: {w.message}")

def runParse (o : Options) (settings : Settings) (print : Bool) : Task m Unit := do
  let schema ← loadSchema settings.schema
  let summary : Summary := ⟨settings.schema, schema.declared⟩
  let printed := schema.document.print
  match o.format with
  | .human =>
    Host.err (warningLines o settings.schema schema.declared)
    Host.err (summary.details o)
    if print then Host.out printed
    Host.err (o.success summary.text)
  | .json => Host.out (summary.toJson (if print then some printed else none)).document
  | .plain =>
    Host.err (warningLines o settings.schema schema.declared)
    Host.out (if print then printed
      else s!"{settings.schema}\t{summary.modelCount}\t{summary.fieldCount}\n")

def runFmt (o : Options) (settings : Settings) (check : Bool) : Task m Unit := do
  let schema ← loadSchema settings.schema
  let printed := schema.document.print
  let isFormatted := printed == schema.source
  if check then
    if !isFormatted then throw (.unformatted settings.schema)
    if o.format = .json then
      Host.out (Json.object [("file", .string settings.schema), ("formatted", .bool true)]).document
    Host.err (o.success s!"{settings.schema} is formatted")
  else
    let count := schema.declared.warnings.length
    if count > 0 then
      Host.err (o.warning s!"{count} warnings; dropped attributes do not appear in the output")
    match o.format with
    | .json =>
      Host.out (Json.object [("file", .string settings.schema), ("formatted", .bool isFormatted),
        ("output", .string printed)]).document
    | _ => Host.out printed

/-- Compares schema and lock file, and shows the outcome. -/
def showPlan (o : Options) (settings : Settings) : Task m Outcome := do
  let schema ← loadSchema settings.schema
  Host.err (warningLines o settings.schema schema.declared)
  let baseline ← loadLock settings.lock
  let outcome := Outcome.of settings baseline schema.document
  Host.out (outcome.render o.format)
  return outcome

/-- Writes the lock file, then the plan if that is asked for. -/
def record (o : Options) (settings : Settings) (planOut? : Option String) (outcome : Outcome) :
    Task m Unit := do
  writeFile settings.lock outcome.document.encode
  match planOut? with
  | some path =>
    writeFile path outcome.planFile
    Host.err (o.status s!"Plan written to {path}")
  | none => pure ()
  let pending := outcome.plan.pending.length
  if pending > 0 then
    Host.err (o.warning s!"{pending} pending operations need a hand-written migration")
  Host.err (o.success s!"Lock file {settings.lock} updated")

def runSync (o : Options) (settings : Settings) (dryRun : Bool) (planOut? : Option String) :
    Task m Unit := do
  let outcome ← showPlan o settings
  if outcome.changes.isEmpty then return
  if dryRun then Host.err (o.status "Dry run: lock file not written.")
  else record o settings planOut? outcome

namespace Invocation

def perform (env : Environment) (i : Invocation) : Task m Unit := do
  let o := i.options
  let settings := (← findSettings env o.config?).withPaths o.schema? o.lock?
  match i.command with
  | .parse print => runParse o settings print
  | .fmt check => runFmt o settings check
  | .plan => discard (showPlan o settings)
  | .sync dryRun planOut? => runSync o settings dryRun planOut?

/-- Performs a command and reports its failure. -/
def run (env : Environment) (i : Invocation) : m (Except Failure Unit) := do
  let result ← (i.perform env).run
  match result with
  | .ok () => pure ()
  | .error failure => Host.err (failure.report i.options.format)
  return result

end Invocation

end SchemaPlan
