import SchemaPlan.Proofs.Command.Effect

/-!
# Syncs that fail

A sync that fails has changed no file, with one exception. The lock file is written before the file
for the plan, so where only the latter cannot be written, the lock file already says that all
is synced.
-/

namespace SchemaPlan

open FileStore Files FileTree

variable {σ : Type} [FileStore σ] {s : σ} {f : Failure}

theorem cause_of_writeFile {path text : String}
    (failed : answer (writeFile path text : Task (StateM σ) Unit) s = .error f) :
    ∃ e, f = .file path e ∨ f = .file (parent path) e := by
  have cause {path : String} {x : Except FileError Unit}
      (h : x.mapError (.file path) = .error f) : ∃ e, f = .file path e := by
    cases x with
    | ok _ => cases h
    | error e => exact ⟨e, (Except.error.inj h).symm⟩
  rw [writeFile, answer_bind] at failed
  rcases bind_eq_error_iff.mp failed with folder | ⟨_, -, file⟩
  · rw [answer_onPath] at folder
    obtain ⟨e, rfl⟩ := cause folder
    exact ⟨e, .inr rfl⟩
  · rw [answer_onPath] at file
    obtain ⟨e, rfl⟩ := cause file
    exact ⟨e, .inl rfl⟩

/-- What a sync that fails has made of the files. -/
inductive Leftover (lock : String) (planOut? : Option String) (document : Document)
    (before : FileTree) (f : Failure) (t : FileTree) : Prop where
  /-- Folders at most. -/
  | folders (opens : Opens (way lock) before t)
  /-- The lock file is there, and the file for the plan is not. -/
  | lockFile {path : String} {u v : FileTree} (wanted : planOut? = some path)
      (opens : Opens (way lock) before u) (put : u.write lock document.encode = .ok v)
      (folders : Opens (way path) v t) (cause : ∃ e, f = .file path e ∨ f = .file (parent path) e)

/-- With a file for the plan there are two files to write, and then nothing that fails. -/
theorem exists_record_eq (o : Options) (settings : Settings) (path : String) (outcome : Outcome) :
    ∃ told : Task (StateM σ) Unit,
      record o settings (some path) outcome =
        (writeFile settings.lock outcome.document.encode >>= fun _ =>
          writeFile path outcome.planFile >>= fun _ => told) ∧
        ∀ s, answer told s = .ok () := by
  refine ⟨_, rfl, fun s => ?_⟩
  rw [answer_bind_of_ok (answer_err _ s)]
  dsimp only
  split <;> rfl

theorem leftover_of_record {o : Options} {settings : Settings} {planOut? : Option String}
    {outcome : Outcome}
    (failed : answer (record o settings planOut? outcome : Task (StateM σ) Unit) s = .error f) :
    Leftover settings.lock planOut? outcome.document (files s) f
      (files (after (record o settings planOut? outcome : Task (StateM σ) Unit) s)) := by
  cases planOut? with
  | none =>
    rcases record_cases o settings outcome s with ⟨ok, -⟩ | ⟨-, opens⟩
    · cases failed.symm.trans ok
    · exact .folders opens
  | some path =>
    obtain ⟨told, whole, done⟩ := exists_record_eq (σ := σ) o settings path outcome
    rw [whole] at failed ⊢
    rcases writeFile_cases settings.lock outcome.document.encode s with
      ⟨ok, u, opens, put⟩ | ⟨⟨e, stopped⟩, opens⟩
    · rw [answer_bind_of_ok ok] at failed
      rw [after_bind_of_ok ok]
      rcases writeFile_cases path outcome.planFile (after (writeFile settings.lock _) s) with
        ⟨ok', -⟩ | ⟨⟨e, stopped⟩, folders⟩
      · rw [answer_bind_of_ok ok', done] at failed
        cases failed
      · rw [answer_bind_of_error stopped] at failed
        rw [after_bind_of_error stopped]
        cases failed
        exact .lockFile rfl opens put folders (cause_of_writeFile stopped)
    · rw [after_bind_of_error stopped]
      exact .folders opens

theorem leftover_of_runSync {o : Options} {settings : Settings} {dryRun : Bool}
    {planOut? : Option String}
    (failed : answer (runSync o settings dryRun planOut? : Task (StateM σ) Unit) s = .error f) :
    let t := files (after (runSync o settings dryRun planOut? : Task (StateM σ) Unit) s)
    t = files s ∨ dryRun = false ∧ ∃ l, answer (loadSchema settings.schema) s = .ok l ∧
      Leftover settings.lock planOut? l.document (files s) f t := by
  intro t
  have kept := (looks_showPlan o settings).files_after s
  cases shown : answer (showPlan o settings) s with
  | error e =>
    have left : after (runSync o settings dryRun planOut? : Task (StateM σ) Unit) s = _ :=
      after_bind_of_error shown
    exact .inl ((congrArg files left).trans kept)
  | ok outcome =>
    let rest : Task (StateM σ) Unit :=
      if outcome.changes.isEmpty then pure ()
      else if dryRun then Host.err (o.status "Dry run: lock file not written.")
      else record o settings planOut? outcome
    have result : answer (runSync o settings dryRun planOut?) s = answer rest _ :=
      answer_bind_of_ok shown
    have left : after (runSync o settings dryRun planOut?) s = after rest _ :=
      after_bind_of_ok shown
    rw [failed] at result
    unfold rest at result left
    split at result
    · cases result
    · next changed =>
      cases dryRun with
      | true => cases result
      | false =>
        rw [if_neg changed, if_neg Bool.false_ne_true] at left
        rw [answer_showPlan] at shown
        obtain ⟨l, loaded, shown⟩ := bind_eq_ok_iff.mp shown
        obtain ⟨baseline, -, shown⟩ := bind_eq_ok_iff.mp shown
        have made : Outcome.of settings baseline l.document = outcome := Except.ok.inj shown
        have document : outcome.document = l.document := made ▸ rfl
        have leftover := leftover_of_record result.symm
        rw [document, kept, ← left] at leftover
        exact .inr ⟨rfl, l, loaded, leftover⟩

variable {env : Environment} {i : Invocation} {schema lock : String} {dryRun : Bool}
  {planOut? : Option String}

theorem leftover_of_run (command : i.command = .sync dryRun planOut?)
    (uses : i.Uses env schema lock s) (failed : (i.run (m := StateM σ) env s).1 = .error f) :
    let t := files (i.run (m := StateM σ) env s).2
    t = files s ∨ dryRun = false ∧ ∃ l, answer (loadSchema schema) s = .ok l ∧
      Leftover lock planOut? l.document (files s) f t := by
  intro t
  have kept := (looks_findSettings env i.options.config?).files_after s
  rw [Invocation.run_result] at failed
  cases settled : answer (findSettings env i.options.config?) s with
  | error e =>
    have left : after (i.perform env) s = _ := after_bind_of_error settled
    exact .inl ((Invocation.files_run s).trans ((congrArg files left).trans kept))
  | ok found =>
    obtain ⟨rfl, rfl⟩ := uses found settled
    have result : answer (i.perform env) s = _ := answer_bind_of_ok settled
    have left : after (i.perform env) s = _ := after_bind_of_ok settled
    simp only [command] at result left
    rw [result] at failed
    have leftover := leftover_of_runSync failed
    rw [(looks_loadSchema _).answer_congr kept, kept, ← left, ← Invocation.files_run] at leftover
    exact leftover

/-- A sync that fails has changed no file, unless it has written the lock file and could not write
the file for the plan. -/
theorem fileAt_of_failed_sync (command : i.command = .sync dryRun planOut?)
    (uses : i.Uses env schema lock s) (failed : (i.run (m := StateM σ) env s).1 = .error f) :
    let t := files (i.run (m := StateM σ) env s).2
    (∀ path, t.fileAt path = (files s).fileAt path) ∨
      dryRun = false ∧ ∃ path ∈ planOut?, (∃ e, f = .file path e ∨ f = .file (parent path) e) ∧
        ∃ l, answer (loadSchema schema) s = .ok l ∧
          t.fileAt lock = some l.document.encode.toUTF8 ∧
          ∀ other, place other ≠ place lock → t.fileAt other = (files s).fileAt other := by
  intro t
  rcases leftover_of_run command uses failed with same | ⟨wet, l, loaded, leftover⟩
  · exact .inl fun path => congrArg (FileTree.fileAt · path) same
  · cases leftover with
    | folders opens => exact .inl fun path => opens.fileAt_eq
    | @lockFile path u v wanted opens put folders cause =>
      refine .inr ⟨wet, path, wanted, cause, l, loaded, ?_, fun other apart => ?_⟩
      · exact folders.fileAt_eq.trans (fileAt_eq_of_find (find_of_write put))
      · exact folders.fileAt_eq.trans
          (((edits_of_write put).fileAt_eq apart.symm).trans opens.fileAt_eq)

/-- A schema file with one model, and a folder where the plan is to go. -/
theorem fileAt_of_failed_sync_of_folder :
    let start : Session :=
      { files := ((∅ : FileTree).put ["plans"] .folder).put ["a.kld"]
          (.file "model A \x7b\n  x: int\n\x7d\n".toUTF8) }
    let sync : Invocation :=
      ⟨.sync false (some "plans"), { schema? := some "a.kld", lock? := some "a.lock" }⟩
    let left : Session := (sync.run (m := StateM Session) {} start).2
    (sync.run (m := StateM Session) {} start).1 = .error (.file "plans" .isFolder) ∧
      ∃ l, answer (loadSchema "a.kld") start = .ok l ∧
        left.files.fileAt "a.lock" = some l.document.encode.toUTF8 := by
  intro start sync left
  have failed : (sync.run (m := StateM Session) {} start).1 = .error (.file "plans" .isFolder) := by
    decide +kernel
  have moved : left.files.fileAt "a.lock" ≠ start.files.fileAt "a.lock" := by decide +kernel
  refine ⟨failed, ?_⟩
  rcases fileAt_of_failed_sync rfl (sync.uses_of_options rfl rfl start) failed with
    kept | ⟨-, -, -, -, l, loaded, locked, -⟩
  · exact absurd (kept "a.lock") moved
  · exact ⟨l, loaded, locked⟩

/-- The plan of a sync that could not write it is lost: once there is room for it, the sync finds
nothing to do. -/
theorem lock_moved_by_failed_sync :
    let start : Session :=
      { files := ((∅ : FileTree).put ["plans"] .folder).put ["a.kld"]
          (.file "model A \x7b\n  x: int\n\x7d\n".toUTF8) }
    let sync : Invocation :=
      ⟨.sync false (some "plans"), { schema? := some "a.kld", lock? := some "a.lock" }⟩
    let left : Session := (sync.run (m := StateM Session) {} start).2
    let cleared : Session := { files := left.files.remove "plans" }
    let again : Session := (sync.run (m := StateM Session) {} cleared).2
    place "plans" ≠ place "a.lock" ∧
      (sync.run (m := StateM Session) {} start).1 = .error (.file "plans" .isFolder) ∧
      start.files.fileAt "a.lock" = none ∧ left.files.fileAt "a.lock" ≠ none ∧
      (sync.run (m := StateM Session) {} cleared).1 = .ok () ∧
      again.out = "No changes detected\n" ∧ again.files.fileAt "plans" = none := by
  decide +kernel

end SchemaPlan
