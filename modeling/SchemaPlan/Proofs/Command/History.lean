import Mathlib.Logic.Relation
import SchemaPlan.Proofs.Command.Effect
import SchemaPlan.Proofs.Migration.Change
import SchemaPlan.Proofs.Schema.Snapshot

/-!
# The lock file over time

Whatever happens to a schema file, and whichever commands run on it in between: the lock file is that
of a sync, and says what the last sync found in the schema file.
-/

namespace SchemaPlan

open FileStore Files FileTree

variable {σ : Type} [FileStore σ] {schema lock : String} {start s t : σ} {past : List Document}
  {env : Environment} {i : Invocation}

/-- The document that a command has synced. -/
def Invocation.synced? (env : Environment) (i : Invocation) (schema : String) (s : σ) :
    Option Document :=
  match i.command, (i.run (m := StateM σ) env s).1, answer (loadSchema schema) s with
  | .sync false _, .ok (), .ok l => some l.document
  | _, _, _ => none

/-- A command runs on a schema file and a lock file. -/
inductive Ran (schema lock : String) (s : σ) : σ → Prop where
  | mk (env : Environment) (i : Invocation) (uses : i.Uses env schema lock s)
      (noPlan : i.WritesNoPlan) : Ran schema lock s (i.run (m := StateM σ) env s).2

/-- States that edits of a schema file and commands lead to, each with the documents that were synced
on the way, the last one first. -/
inductive History (schema lock : String) (start : σ) : List Document → σ → Prop where
  | start : History schema lock start [] start
  | edit {past : List Document} {s t : σ} (before : History schema lock start past s)
      (edits : (files s).Edits schema (files t)) : History schema lock start past t
  | command {past : List Document} {s : σ} (before : History schema lock start past s)
      (env : Environment) (i : Invocation) (uses : i.Uses env schema lock s)
      (noPlan : i.WritesNoPlan) :
      History schema lock start ((i.synced? env schema s).toList ++ past)
        (i.run (m := StateM σ) env s).2

theorem Invocation.synced?_eq_some {l : LoadedSchema} (syncs : i.Syncs)
    (ok : (i.run (m := StateM σ) env s).1 = .ok ()) (loaded : answer (loadSchema schema) s = .ok l) :
    i.synced? env schema s = some l.document := by
  obtain ⟨planOut?, command⟩ := syncs
  rw [synced?, command, ok, loaded]

theorem Invocation.synced?_eq_none (h : i.Syncs → (i.run (m := StateM σ) env s).1 ≠ .ok ()) :
    i.synced? env schema s = none := by
  unfold synced?
  split
  · next planOut? _ command ok _ => exact absurd ok (h ⟨planOut?, command⟩)
  · rfl

/-- What is known of a lock file when the last synced document is `last`. -/
inductive Describes (t : FileTree) (lock : String) (past : List Document) (last : Document) :
    Prop where
  | absent (none : t.fileAt lock = none) (blank : Document.diff ∅ last = [])
  | present {d : Document} (synced : d ∈ past) (storable : d.Storable)
      (found : t.find lock = .ok (.file d.encode.toUTF8)) (same : d.diff last = [])

namespace Describes

variable {t u : FileTree} {last : Document}

theorem of_edits (h : Describes t lock past last) (edits : t.Edits schema u)
    (apart : place schema ≠ place lock) : Describes u lock past last := by
  cases h with
  | absent none blank => exact .absent ((edits.fileAt_eq apart).trans none) blank
  | present synced storable found same =>
    exact .present synced storable (edits.find apart found) same

theorem of_opens {ls : List Location} (h : Describes t lock past last) (opens : Opens ls t u) :
    Describes u lock past last := by
  cases h with
  | absent none blank => exact .absent (opens.fileAt_eq.trans none) blank
  | present synced storable found same => exact .present synced storable (opens.find found) same

end Describes

theorem answer_loadLock_of_find {d : Document} (storable : d.Storable)
    (found : (files s).find lock = .ok (.file d.encode.toUTF8)) :
    answer (loadLock lock) s = .ok d :=
  answer_loadLock_of_text (read_eq_ok_iff.mpr found) (Document.decode_encode storable)

theorem eq_empty_of_loadLock {d : Document} (none : (files s).fileAt lock = none)
    (loaded : answer (loadLock lock) s = .ok d) : d = ∅ := by
  rw [loadLock, answer_bind, answer_read] at loaded
  cases read : (files s).read lock with
  | ok text =>
    rw [fileAt_eq_of_find (read_eq_ok_iff.mp read)] at none
    cases none
  | error e =>
    rw [read] at loaded
    cases e <;> cases loaded
    rfl

theorem Describes.loadLock {last : Document} (h : Describes (files s) lock past last) {d : Document}
    (loaded : answer (loadLock lock) s = .ok d) : d.diff last = [] := by
  cases h with
  | absent none blank => rw [eq_empty_of_loadLock none loaded, blank]
  | present synced storable found same =>
    rw [answer_loadLock_of_find storable found] at loaded
    cases loaded
    exact same

theorem Describes.exists_loadLock {last : Document} (h : Describes (files s) lock past last)
    (clear : ¬ (files s).Obstructed lock) : ∃ d, answer (SchemaPlan.loadLock lock) s = .ok d := by
  cases h with
  | absent none blank => exact ⟨∅, answer_loadLock_of_notFound (read_eq_notFound none clear)⟩
  | present synced storable found same => exact ⟨_, answer_loadLock_of_find storable found⟩

theorem Describes.exists_of_fileAt {last : Document} (h : Describes (files s) lock past last)
    {content : ByteArray} (file : (files s).fileAt lock = some content) :
    ∃ d ∈ past, content = d.encode.toUTF8 ∧ answer (SchemaPlan.loadLock lock) s = .ok d := by
  cases h with
  | absent none _ =>
    rw [none] at file
    cases file
  | present synced storable found _ =>
    rw [fileAt_eq_of_find found] at file
    cases file
    exact ⟨_, synced, rfl, answer_loadLock_of_find storable found⟩

theorem Describes.fileAt_eq_none {last : Document} (h : Describes (files s) lock past last)
    {e : Failure} (failed : answer (SchemaPlan.loadLock lock) s = .error e) :
    (files s).fileAt lock = none := by
  cases h with
  | absent none _ => exact none
  | present synced storable found _ =>
    rw [answer_loadLock_of_find storable found] at failed
    cases failed

theorem storable_of_loadSchema {l : LoadedSchema} (loaded : answer (loadSchema schema) s = .ok l) :
    l.document.Storable :=
  (printable_of_parse (answer_loadSchema_eq_ok_iff.mp loaded).2).storable

theorem changesFound_eq_ok_iff {changes : ChangeSet} :
    changesFound schema lock s = .ok changes ↔
      ∃ l baseline, answer (loadSchema schema) s = .ok l ∧ answer (loadLock lock) s = .ok baseline ∧
        baseline.diff l.document = changes := by
  rw [changesFound, bind_eq_ok_iff]
  constructor
  · intro h
    obtain ⟨l, loaded, h⟩ := h
    obtain ⟨baseline, locked, h⟩ := bind_eq_ok_iff.mp h
    exact ⟨l, baseline, loaded, locked, Except.ok.inj h⟩
  · intro h
    obtain ⟨l, baseline, loaded, locked, rfl⟩ := h
    exact ⟨l, loaded, bind_eq_ok_iff.mpr ⟨baseline, locked, rfl⟩⟩

/-- Only the lock file of a sync that wrote it is another one afterwards. -/
theorem fileAt_run (uses : i.Uses env schema lock s) (noPlan : i.WritesNoPlan)
    (changed : (files (i.run (m := StateM σ) env s).2).fileAt lock ≠ (files s).fileAt lock) :
    i.Syncs ∧ (i.run (m := StateM σ) env s).1 = .ok () ∧
      ∃ changes, changesFound schema lock s = .ok changes ∧ changes ≠ [] := by
  cases i.effect_run uses noPlan with
  | none same _ => exact absurd (by rw [same]) changed
  | failed _ _ _ _ opens => exact absurd opens.fileAt_eq changed
  | written syncs found pending ok _ _ _ => exact ⟨syncs, ok, _, found, pending⟩

theorem exists_loadSchema_of_run (uses : i.Uses env schema lock s) (noPlan : i.WritesNoPlan)
    (syncs : i.Syncs) (ok : (i.run (m := StateM σ) env s).1 = .ok ()) :
    ∃ l, answer (loadSchema schema) s = .ok l := by
  cases i.effect_run uses noPlan with
  | none _ upToDate =>
    obtain ⟨l, _, loaded, -, -⟩ := changesFound_eq_ok_iff.mp (upToDate syncs ok)
    exact ⟨l, loaded⟩
  | failed _ _ _ failed _ =>
    rw [ok] at failed
    cases failed
  | written _ _ _ _ loaded _ _ => exact ⟨_, loaded⟩

/-- The lock file of a sync that is through describes the document that it synced. -/
theorem describes_run_of_syncs (uses : i.Uses env schema lock s) (noPlan : i.WritesNoPlan)
    (syncs : i.Syncs) (ok : (i.run (m := StateM σ) env s).1 = .ok ()) {last : Document}
    (h : Describes (files s) lock past last) {l : LoadedSchema}
    (loaded : answer (loadSchema schema) s = .ok l) :
    Describes (files (i.run (m := StateM σ) env s).2) lock (l.document :: past) l.document := by
  cases i.effect_run uses noPlan with
  | none kept upToDate =>
    rw [kept]
    obtain ⟨l', baseline, again, locked, same⟩ := changesFound_eq_ok_iff.mp (upToDate syncs ok)
    cases loaded.symm.trans again
    cases h with
    | absent none _ => exact .absent none (eq_empty_of_loadLock none locked ▸ same)
    | present synced storable found _ =>
      rw [answer_loadLock_of_find storable found] at locked
      cases locked
      exact .present (List.mem_cons_of_mem _ synced) storable found same
  | failed _ _ _ failed _ =>
    rw [ok] at failed
    cases failed
  | written _ _ _ _ again _ put =>
    cases loaded.symm.trans again
    exact .present List.mem_cons_self (storable_of_loadSchema loaded) (find_of_write put)
      (Document.diff_self _)

/-- What else runs leaves the lock file described as it was. -/
theorem describes_run_of_not_syncs (uses : i.Uses env schema lock s) (noPlan : i.WritesNoPlan)
    (other : i.Syncs → (i.run (m := StateM σ) env s).1 ≠ .ok ()) {last : Document}
    (h : Describes (files s) lock past last) :
    Describes (files (i.run (m := StateM σ) env s).2) lock past last := by
  cases i.effect_run uses noPlan with
  | none kept _ =>
    rw [kept]
    exact h
  | failed _ _ _ _ opens => exact h.of_opens opens
  | written syncs _ _ ok _ _ _ => exact absurd ok (other syncs)

theorem describes_run (uses : i.Uses env schema lock s) (noPlan : i.WritesNoPlan)
    (h : Describes (files s) lock past (past.headD ∅)) :
    let past := (i.synced? env schema s).toList ++ past
    Describes (files (i.run (m := StateM σ) env s).2) lock past (past.headD ∅) := by
  by_cases through : i.Syncs ∧ (i.run (m := StateM σ) env s).1 = .ok ()
  · obtain ⟨syncs, ok⟩ := through
    obtain ⟨l, loaded⟩ := exists_loadSchema_of_run uses noPlan syncs ok
    rw [Invocation.synced?_eq_some syncs ok loaded]
    exact describes_run_of_syncs uses noPlan syncs ok h loaded
  · have other (syncs : i.Syncs) : (i.run (m := StateM σ) env s).1 ≠ .ok () :=
      fun ok => through ⟨syncs, ok⟩
    rw [Invocation.synced?_eq_none other]
    exact describes_run_of_not_syncs uses noPlan other h

/-- A sync that is through leaves nothing to do for the next. -/
theorem changesFound_run (apart : place schema ≠ place lock) (uses : i.Uses env schema lock s)
    (noPlan : i.WritesNoPlan) (syncs : i.Syncs) (ok : (i.run (m := StateM σ) env s).1 = .ok ()) :
    changesFound schema lock (i.run (m := StateM σ) env s).2 = .ok [] := by
  cases i.effect_run uses noPlan with
  | none same upToDate => rw [changesFound_congr schema lock same, upToDate syncs ok]
  | failed _ _ _ failed _ =>
    rw [ok] at failed
    cases failed
  | @written _ l _ _ _ _ _ loaded opens put =>
    obtain ⟨readable, parsed⟩ := answer_loadSchema_eq_ok_iff.mp loaded
    have kept := (edits_of_write put).find apart.symm (opens.find (read_eq_ok_iff.mp readable))
    refine changesFound_eq_ok_iff.mpr ⟨l, l.document, ?_, ?_, Document.diff_self _⟩
    · exact answer_loadSchema_eq_ok_iff.mpr ⟨read_eq_ok_iff.mpr kept, parsed⟩
    · exact answer_loadLock_of_find (storable_of_loadSchema loaded) (find_of_write put)

theorem files_of_ran (ran : Ran schema lock s t) (upToDate : changesFound schema lock s = .ok []) :
    files t = files s := by
  obtain ⟨env, i, uses, noPlan⟩ := ran
  have nothing {changes : ChangeSet} (found : changesFound schema lock s = .ok changes) :
      changes = [] := by
    rw [upToDate] at found
    exact (Except.ok.inj found).symm
  cases i.effect_run uses noPlan with
  | none same _ => exact same
  | failed _ found pending _ _ => exact absurd (nothing found) pending
  | written _ found pending _ _ _ _ => exact absurd (nothing found) pending

theorem files_of_reflTransGen (rans : Relation.ReflTransGen (Ran schema lock) s t)
    (upToDate : changesFound schema lock s = .ok []) : files t = files s := by
  induction rans with
  | refl => rfl
  | tail _ ran ih =>
    rw [← ih]
    exact files_of_ran ran (changesFound_congr schema lock ih ▸ upToDate)

/-- A path to a lock file stays clear of all that a command makes. -/
theorem not_obstructed_run (uses : i.Uses env schema lock s) (noPlan : i.WritesNoPlan)
    (straight : place lock ∉ way lock) (clear : ¬ (files s).Obstructed lock) :
    ¬ (files (i.run (m := StateM σ) env s).2).Obstructed lock := by
  cases i.effect_run uses noPlan with
  | none same _ =>
    rw [same]
    exact clear
  | failed _ _ _ _ opens => exact opens.not_obstructed straight clear
  | written _ _ _ _ _ opens put =>
    exact (edits_of_write put).not_obstructed straight (opens.not_obstructed straight clear)

namespace History

theorem describes (apart : place schema ≠ place lock) (fresh : (files start).fileAt lock = none)
    (history : History schema lock start past s) :
    Describes (files s) lock past (past.headD ∅) := by
  induction history with
  | start => exact .absent fresh (Document.diff_self ∅)
  | edit _ edits ih => exact ih.of_edits edits apart
  | command _ env i uses noPlan ih => exact describes_run uses noPlan ih

theorem not_obstructed (aside : place schema ∉ way lock) (straight : place lock ∉ way lock)
    (clear : ¬ (files start).Obstructed lock) (history : History schema lock start past s) :
    ¬ (files s).Obstructed lock := by
  induction history with
  | start => exact clear
  | edit _ edits ih => exact edits.not_obstructed aside ih
  | command _ env i uses noPlan ih => exact not_obstructed_run uses noPlan straight ih

end History

/-- What is known of the lock file in a state `s` that a history from `start` leads to. -/
structure LockUpheld (schema lock : String) (start : σ) (past : List Document) (s : σ) : Prop where
  /-- It is the file of a document that was synced, and is read as that document. -/
  recorded : ∀ content, (files s).fileAt lock = some content →
    ∃ d ∈ past, content = d.encode.toUTF8 ∧ answer (loadLock lock) s = .ok d
  /-- Nothing separates what is read from the document that was synced last. -/
  current : ∀ d, answer (loadLock lock) s = .ok d → d.diff (past.headD ∅) = []
  /-- Where reading fails there is no lock file, and something on the way to it. -/
  missing : ∀ e, answer (loadLock lock) s = .error e →
    (files s).fileAt lock = none ∧ (files s).Obstructed lock
  /-- Reading does not fail on a path that was free at the start and that leads neither through the
  schema file nor through its own end. -/
  readable : ¬ (files start).Obstructed lock → place schema ∉ way lock → place lock ∉ way lock →
    ∃ d, answer (loadLock lock) s = .ok d
  /-- An edit of the schema file leaves it. -/
  edit : ∀ t : σ, (files s).Edits schema (files t) →
    (files t).fileAt lock = (files s).fileAt lock
  /-- Of the commands only a sync changes it, one that is through and found changes. -/
  command : ∀ env (i : Invocation), i.Uses env schema lock s → i.WritesNoPlan →
    (files (i.run (m := StateM σ) env s).2).fileAt lock ≠ (files s).fileAt lock →
    i.Syncs ∧ (i.run (m := StateM σ) env s).1 = .ok () ∧
      ∃ changes, changesFound schema lock s = .ok changes ∧ changes ≠ []
  /-- After a sync that is through no command finds changes or makes any, until the next edit. -/
  again : ∀ env (i : Invocation), i.Uses env schema lock s → i.WritesNoPlan → i.Syncs →
    (i.run (m := StateM σ) env s).1 = .ok () →
    ∀ t, Relation.ReflTransGen (Ran schema lock) (i.run (m := StateM σ) env s).2 t →
      changesFound schema lock t = .ok [] ∧ files t = files (i.run (m := StateM σ) env s).2

/-- The lock file always describes the last synced schema. -/
theorem lock_of_last_sync (apart : place schema ≠ place lock)
    (fresh : (files start).fileAt lock = none) (history : History schema lock start past s) :
    LockUpheld schema lock start past s := by
  have describes := history.describes apart fresh
  constructor
  case recorded =>
    intro content file
    exact describes.exists_of_fileAt file
  case current =>
    intro d loaded
    exact describes.loadLock loaded
  case missing =>
    intro e failed
    refine ⟨describes.fileAt_eq_none failed, by_contra fun clear => ?_⟩
    obtain ⟨d, loaded⟩ := describes.exists_loadLock clear
    rw [loaded] at failed
    cases failed
  case readable =>
    intro clear aside straight
    exact describes.exists_loadLock (history.not_obstructed aside straight clear)
  case edit =>
    intro t edits
    exact edits.fileAt_eq apart
  case command =>
    intro env i uses noPlan changed
    exact fileAt_run uses noPlan changed
  case again =>
    intro env i uses noPlan syncs ok t rans
    have upToDate := changesFound_run apart uses noPlan syncs ok
    have same := files_of_reflTransGen rans upToDate
    exact ⟨changesFound_congr schema lock same ▸ upToDate, same⟩

/-- One sync of a schema file with one model. -/
theorem lock_of_last_sync_of_one :
    let edited : Session :=
      { files := (∅ : FileTree).put ["a.kld"] (.file "model A \x7b\n  x: int\n\x7d\n".toUTF8) }
    let sync : Invocation :=
      ⟨.sync false none, { schema? := some "a.kld", lock? := some "a.lock" }⟩
    let left : Session := (sync.run (m := StateM Session) {} edited).2
    left.files.fileAt "a.lock" = some ("\x7b\n  \"A\": \x7b\n    \"name\": \"A\",\n" ++
      "    \"fields\": \x7b\n      \"x\": \x7b\n        \"type\": \"int\",\n" ++
      "        \"attributes\": []\n      \x7d\n    \x7d\n  \x7d\n\x7d\n").toUTF8 ∧
    (sync.synced? {} "a.kld" edited).isSome ∧
    ∃ d, answer (loadLock "a.lock") left = .ok d ∧
      d.diff ((sync.synced? {} "a.kld" edited).getD ∅) = [] := by
  intro edited sync left
  have history : History "a.kld" "a.lock" ({ files := ∅ } : Session)
      ((sync.synced? {} "a.kld" edited).toList ++ []) left :=
    .command (.edit .start (@edits_put ∅ "a.kld" _ (by decide) (by decide))) {} sync
      (sync.uses_of_options rfl rfl edited) (fun _ _ h => by cases h)
  have upheld := lock_of_last_sync (by decide) rfl history
  have clear : ¬ FileTree.Obstructed ∅ "a.lock" := by
    intro obstructed
    rcases obstructed with folder | ⟨l, onWay, -⟩
    · exact absurd folder (by decide)
    · rw [show way "a.lock" = [] by decide] at onWay
      cases onWay
  obtain ⟨d, loaded⟩ := upheld.readable clear (by decide) (by decide)
  refine ⟨by decide +kernel, by decide +kernel, d, loaded, ?_⟩
  have diff := upheld.current d loaded
  cases h : sync.synced? {} "a.kld" edited with
  | none => rw [h] at diff; exact diff
  | some document => rw [h] at diff; exact diff

/-- A schema file in the way of the lock file keeps it from being read. -/
theorem unreadable_lock_of_edit :
    let start : Session := { files := ∅ }
    let edited : Session := { files := (∅ : FileTree).put ["db"] (.file "".toUTF8) }
    place "db" ≠ place "db/lock" ∧ start.files.fileAt "db/lock" = none ∧
      History "db" "db/lock" start [] edited ∧
      ¬ ∃ d, answer (loadLock "db/lock") edited = .ok d ∧ d.diff ∅ = [] := by
  intro start edited
  have failed : answer (loadLock "db/lock") edited = .error (.file "db/lock" .notFolder) := rfl
  refine ⟨by decide, rfl, ?_, ?_⟩
  · exact .edit .start (@edits_put ∅ "db" _ (by decide) (by decide))
  · intro h
    obtain ⟨d, loaded, -⟩ := h
    rw [failed] at loaded
    cases loaded

end SchemaPlan
