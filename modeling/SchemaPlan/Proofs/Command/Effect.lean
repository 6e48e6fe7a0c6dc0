import SchemaPlan.Proofs.Command.Task

/-!
# What commands do to files

A command leaves the files as they are, unless it is a sync that finds changes.
-/

namespace SchemaPlan

open FileStore Files FileTree

variable {σ : Type} [FileStore σ] {s : σ}

/-- What a command that starts in the state `s` may come to, and what it may make of the files. -/
inductive Effect (schema lock : String) (syncs : Prop) (s : σ) (result : Except Failure Unit)
    (t : FileTree) : Prop where
  /-- No file is touched, and a sync that is through has found the lock file up to date. -/
  | none (same : t = files s)
      (upToDate : syncs → result = .ok () → changesFound schema lock s = .ok [])
  /-- A sync could not write the lock file. -/
  | failed {e : Failure} {changes : ChangeSet} (wanted : syncs)
      (found : changesFound schema lock s = .ok changes) (pending : changes ≠ [])
      (ended : result = .error e) (opens : Opens (way lock) (files s) t)
  /-- A sync has written the lock file. -/
  | written {u : FileTree} {l : LoadedSchema} {changes : ChangeSet} (wanted : syncs)
      (found : changesFound schema lock s = .ok changes) (pending : changes ≠ [])
      (ended : result = .ok ()) (loaded : answer (loadSchema schema) s = .ok l)
      (opens : Opens (way lock) (files s) u) (put : u.write lock l.document.encode = .ok t)

theorem Effect.congr {schema lock : String} {syncs : Prop} {result : Except Failure Unit}
    {s' : σ} {t : FileTree} (h : Effect schema lock syncs s' result t) (same : files s' = files s) :
    Effect schema lock syncs s result t := by
  have changesFound_eq := changesFound_congr schema lock same
  cases h with
  | none kept upToDate => exact .none (kept.trans same) (changesFound_eq ▸ upToDate)
  | failed wanted found pending ended opens =>
    exact .failed wanted (changesFound_eq ▸ found) pending ended (same ▸ opens)
  | written wanted found pending ended loaded opens put =>
    rw [(looks_loadSchema schema).answer_congr same] at loaded
    exact .written wanted (changesFound_eq ▸ found) pending ended loaded (same ▸ opens) put

theorem effect_of_looks {schema lock : String} {syncs : Prop} {x : Task (StateM σ) Unit} {t : σ}
    (looks : Looks x) (kept : files t = files s)
    (upToDate : syncs → answer x t = .ok () → changesFound schema lock s = .ok []) :
    Effect schema lock syncs s (answer x t) (files (after x t)) :=
  .none ((looks.files_after t).trans kept) upToDate

/-- After the lock file is written a sync without a file for the plan does not fail. -/
theorem record_cases (o : Options) (settings : Settings) (outcome : Outcome) (s : σ) :
    let x : Task (StateM σ) Unit := record o settings none outcome
    (answer x s = .ok () ∧ ∃ t, Opens (way settings.lock) (files s) t ∧
      t.write settings.lock outcome.document.encode = .ok (files (after x s))) ∨
    (∃ e, answer x s = .error e) ∧ Opens (way settings.lock) (files s) (files (after x s)) := by
  intro x
  let reported : Task (StateM σ) Unit := do
    if outcome.plan.pending.length > 0 then
      Host.err (o.warning
        s!"{outcome.plan.pending.length} pending operations need a hand-written migration")
    Host.err (o.success s!"Lock file {settings.lock} updated")
  have looks : Looks reported := by
    refine looks_ite (looks_bind (looks_err _) fun _ => looks_err _) (looks_err _)
  have done (s : σ) : answer reported s = .ok () := by
    unfold reported
    split <;> rfl
  rcases writeFile_cases settings.lock outcome.document.encode s with
    ⟨ok, t, opens, put⟩ | ⟨⟨e, failed⟩, opens⟩
  · have left : after x s = _ := after_bind_of_ok (f := fun _ => reported) ok
    refine .inl ⟨?_, t, opens, ?_⟩
    · exact (answer_bind_of_ok (f := fun _ => reported) ok).trans (done _)
    · rw [left, looks.files_after, put]
  · have left : after x s = _ := after_bind_of_error (f := fun _ => reported) failed
    refine .inr ⟨⟨e, answer_bind_of_error (f := fun _ => reported) failed⟩, ?_⟩
    rw [left]
    exact opens

theorem effect_runSync (o : Options) (settings : Settings) (dryRun : Bool) (s : σ) :
    let x : Task (StateM σ) Unit := runSync o settings dryRun none
    Effect settings.schema settings.lock (dryRun = false) s (answer x s) (files (after x s)) := by
  intro x
  have kept := (looks_showPlan o settings).files_after s
  cases shown : answer (showPlan o settings) s with
  | error e =>
    have result : answer x s = .error e := answer_bind_of_error shown
    have left : after x s = after (showPlan o settings) s := after_bind_of_error shown
    rw [result, left]
    exact .none kept fun _ ok => by cases ok
  | ok outcome =>
    let rest : Task (StateM σ) Unit :=
      if outcome.changes.isEmpty then pure ()
      else if dryRun then Host.err (o.status "Dry run: lock file not written.")
      else record o settings none outcome
    have result : answer x s = answer rest (after (showPlan o settings) s) :=
      answer_bind_of_ok shown
    have left : after x s = after rest (after (showPlan o settings) s) := after_bind_of_ok shown
    rw [answer_showPlan] at shown
    obtain ⟨l, loaded, shown⟩ := bind_eq_ok_iff.mp shown
    obtain ⟨baseline, locked, shown⟩ := bind_eq_ok_iff.mp shown
    have made : Outcome.of settings baseline l.document = outcome := Except.ok.inj shown
    have found : changesFound settings.schema settings.lock s = .ok outcome.changes := by
      rw [changesFound, loaded, locked, ← made]
      rfl
    rw [result, left]
    by_cases empty : outcome.changes = []
    · rw [show rest = pure () from if_pos (List.isEmpty_iff.mpr empty)]
      exact effect_of_looks (looks_pure ()) kept fun _ _ => empty ▸ found
    · rw [show rest = _ from if_neg fun none => empty (List.isEmpty_iff.mp none)]
      cases dryRun with
      | true => exact effect_of_looks (looks_err _) kept fun wanted => by cases wanted
      | false =>
        rw [if_neg Bool.false_ne_true]
        rcases record_cases o settings outcome (after (showPlan o settings) s) with
          ⟨ok, t, opens, put⟩ | ⟨⟨e, failed⟩, opens⟩
        · rw [kept] at opens
          rw [← show l.document = outcome.document from congrArg Outcome.document made] at put
          exact .written rfl found empty ok loaded opens put
        · exact .failed rfl found empty failed (kept ▸ opens)

namespace Invocation

variable {env : Environment} {i : Invocation} {schema lock : String}

/-- A command that writes the lock file if there are changes. -/
def Syncs (i : Invocation) : Prop := ∃ planOut?, i.command = .sync false planOut?

/-- A command that puts no plan into a file. -/
def WritesNoPlan (i : Invocation) : Prop := ∀ dryRun path, i.command ≠ .sync dryRun (some path)

/-- The settings that a command finds lead it to two files. -/
def Uses (env : Environment) (i : Invocation) (schema lock : String) (s : σ) : Prop :=
  ∀ settings, answer (findSettings env i.options.config?) s = .ok settings →
    (settings.withPaths i.options.schema? i.options.lock?).schema = schema ∧
      (settings.withPaths i.options.schema? i.options.lock?).lock = lock

/-- Both files can be named on the command line. -/
theorem uses_of_options (schema? : i.options.schema? = some schema)
    (lock? : i.options.lock? = some lock) (s : σ) : i.Uses env schema lock s := by
  intro settings _
  rw [schema?, lock?]
  exact ⟨rfl, rfl⟩

theorem run_result (s : σ) : (i.run (m := StateM σ) env s).1 = answer (i.perform env) s := by
  rw [Invocation.run, SchemaPlan.run_bind]
  change _ = ((i.perform env : Task (StateM σ) Unit).run s).1
  cases ((i.perform env : Task (StateM σ) Unit).run s).1 <;> rfl

theorem files_run (s : σ) :
    files (i.run (m := StateM σ) env s).2 = files (after (i.perform env) s) := by
  rw [Invocation.run, SchemaPlan.run_bind]
  change _ = files ((i.perform env : Task (StateM σ) Unit).run s).2
  cases ((i.perform env : Task (StateM σ) Unit).run s).1 with
  | ok _ => rfl
  | error failure => exact (err_tells _ _).2

theorem effect_run (uses : i.Uses env schema lock s) (noPlan : i.WritesNoPlan) :
    Effect schema lock i.Syncs s (i.run (m := StateM σ) env s).1
      (files (i.run (m := StateM σ) env s).2) := by
  rw [run_result, files_run]
  have kept := (looks_findSettings env i.options.config?).files_after s
  cases settled : answer (findSettings env i.options.config?) s with
  | error e =>
    have result : answer (i.perform env) s = .error e := answer_bind_of_error settled
    have left : after (i.perform env) s = _ := after_bind_of_error settled
    rw [result, left]
    exact .none kept fun _ ok => by cases ok
  | ok found =>
    obtain ⟨rfl, rfl⟩ := uses found settled
    have result : answer (i.perform env) s = _ := answer_bind_of_ok settled
    have left : after (i.perform env) s = _ := after_bind_of_ok settled
    rw [result, left]
    obtain ⟨command, options⟩ := i
    cases command with
    | parse print =>
      exact effect_of_looks (looks_runParse ..) kept fun ⟨_, syncs⟩ => by cases syncs
    | fmt check =>
      exact effect_of_looks (looks_runFmt ..) kept fun ⟨_, syncs⟩ => by cases syncs
    | plan =>
      exact effect_of_looks (looks_bind (looks_showPlan ..) fun _ => looks_pure _) kept
        fun ⟨_, syncs⟩ => by cases syncs
    | sync dryRun planOut? =>
      cases planOut? with
      | some path => exact absurd rfl (noPlan dryRun path)
      | none =>
        have syncs : Syncs ⟨.sync dryRun none, options⟩ = (dryRun = false) := by
          simp [Syncs]
        rw [syncs]
        exact (effect_runSync ..).congr kept

end Invocation

end SchemaPlan
