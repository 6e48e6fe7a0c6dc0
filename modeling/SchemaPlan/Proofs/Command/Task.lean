import SchemaPlan.Command.Run
import SchemaPlan.Proofs.Files.Store
import SchemaPlan.Proofs.Result

/-!
# What tasks do to files

Most tasks only look at the files. The one that writes does so completely, or leaves no more
behind than folders.
-/

namespace SchemaPlan

open FileStore Files FileTree

variable {σ α β : Type}

/-- What a task comes to in a state of the host. -/
def answer (x : Task (StateM σ) α) (s : σ) : Except Failure α := (x.run s).1

/-- The state that a task leaves. -/
def after (x : Task (StateM σ) α) (s : σ) : σ := (x.run s).2

section Bind

variable {x : Task (StateM σ) α} {f : α → Task (StateM σ) β} {s : σ} {e : Failure} {a : α} {b : β}

theorem run_bind_of_ok (h : answer x s = .ok a) : (x >>= f).run s = (f a).run (after x s) := by
  show ExceptT.bindCont f (answer x s) (after x s) = _
  rw [h]
  rfl

theorem run_bind_of_error (h : answer x s = .error e) :
    (x >>= f).run s = (.error e, after x s) := by
  show ExceptT.bindCont f (answer x s) (after x s) = _
  rw [h]
  rfl

theorem answer_bind_of_ok (h : answer x s = .ok a) :
    answer (x >>= f) s = answer (f a) (after x s) := congrArg Prod.fst (run_bind_of_ok h)

theorem answer_bind_of_error (h : answer x s = .error e) : answer (x >>= f) s = .error e :=
  congrArg Prod.fst (run_bind_of_error h)

theorem after_bind_of_ok (h : answer x s = .ok a) :
    after (x >>= f) s = after (f a) (after x s) := congrArg Prod.snd (run_bind_of_ok h)

theorem after_bind_of_error (h : answer x s = .error e) : after (x >>= f) s = after x s :=
  congrArg Prod.snd (run_bind_of_error h)

theorem answer_bind : answer (x >>= f) s = answer x s >>= fun a => answer (f a) (after x s) := by
  cases h : answer x s with
  | error e => exact answer_bind_of_error h
  | ok a => exact answer_bind_of_ok h

theorem run_onPath (path : String) (x : StateM σ (Except FileError α)) (s : σ) :
    (onPath path x).run s = ((x s).1.mapError (.file path), (x s).2) := by
  apply (run_bind_of_ok (x := ExceptT.lift x) (a := (x s).1) rfl).trans
  rw [show after (ExceptT.lift x) s = (x s).2 from rfl]
  cases (x s).1 <;> rfl

theorem answer_onPath {path : String} {x : StateM σ (Except FileError α)} {s : σ} :
    answer (onPath path x) s = (x s).1.mapError (.file path) :=
  congrArg Prod.fst (run_onPath path x s)

theorem after_onPath {path : String} {x : StateM σ (Except FileError α)} {s : σ} :
    after (onPath path x) s = (x s).2 :=
  congrArg Prod.snd (run_onPath path x s)

end Bind

variable [FileStore σ] {s t : σ} {path text : String}

/-- A task that changes no file and answers by the files alone. -/
def Looks (x : Task (StateM σ) α) : Prop :=
  ∃ f : FileTree → Except Failure α, Tells files x.run f

theorem Looks.files_after {x : Task (StateM σ) α} (h : Looks x) (s : σ) :
    files (after x s) = files s := by
  obtain ⟨f, tells⟩ := h
  exact (tells s).2

theorem Looks.answer_congr {x : Task (StateM σ) α} (h : Looks x) (same : files s = files t) :
    answer x s = answer x t := by
  obtain ⟨f, tells⟩ := h
  exact (tells s).1.trans (same ▸ (tells t).1.symm)

theorem looks_pure (a : α) : Looks (pure a : Task (StateM σ) α) :=
  ⟨fun _ => .ok a, fun _ => ⟨rfl, rfl⟩⟩

theorem looks_throw (e : Failure) : Looks (throw e : Task (StateM σ) α) :=
  ⟨fun _ => .error e, fun _ => ⟨rfl, rfl⟩⟩

theorem looks_lift {x : StateM σ α} {f : FileTree → α} (h : Tells files x f) :
    Looks (ExceptT.lift x : Task (StateM σ) α) :=
  ⟨fun tree => .ok (f tree), fun s => ⟨congrArg Except.ok (h s).1, (h s).2⟩⟩

theorem looks_bind {x : Task (StateM σ) α} {f : α → Task (StateM σ) β} (first : Looks x)
    (next : ∀ a, Looks (f a)) : Looks (x >>= f) := by
  obtain ⟨g, tells⟩ := first
  choose h tellsNext using next
  refine ⟨fun tree => g tree >>= fun a => h a tree, fun s => ?_⟩
  obtain ⟨told, kept⟩ := tells s
  change answer x s = _ at told
  change files (after x s) = _ at kept
  dsimp only
  cases came : answer x s with
  | error e =>
    rw [run_bind_of_error came, ← told, came]
    exact ⟨rfl, kept⟩
  | ok a =>
    obtain ⟨toldNext, keptNext⟩ := tellsNext a (after x s)
    rw [run_bind_of_ok came, ← told, came, ← kept]
    exact ⟨toldNext, keptNext⟩

theorem looks_ite {c : Prop} [Decidable c] {x y : Task (StateM σ) α} (yes : Looks x)
    (no : Looks y) : Looks (if c then x else y) := by
  split
  · exact yes
  · exact no

theorem looks_read (path : String) :
    Looks (Host.read path : Task (StateM σ) (Except FileError String)) :=
  looks_lift (read_tells path)

theorem looks_out (text : String) : Looks (Host.out text : Task (StateM σ) Unit) :=
  looks_lift (out_tells text)

theorem looks_err (text : String) : Looks (Host.err text : Task (StateM σ) Unit) :=
  looks_lift (err_tells text)

theorem looks_onPath {x : StateM σ (Except FileError α)} {f : FileTree → Except FileError α}
    (h : Tells files x f) (path : String) : Looks (onPath path x) := by
  apply looks_bind (looks_lift h)
  intro result
  cases result with
  | ok a => exact looks_pure a
  | error e => exact looks_throw _

theorem looks_loadSettings (path : String) :
    Looks (loadSettings path : Task (StateM σ) Settings) := by
  apply looks_bind (looks_onPath (read_tells path) path)
  intro text
  cases Settings.ofText text with
  | ok settings => exact looks_pure settings
  | error e => exact looks_throw _

theorem looks_searchSettings (paths : List String) :
    Looks (searchSettings paths : Task (StateM σ) Settings) := by
  induction paths with
  | nil => exact looks_pure _
  | cons path rest ih =>
    apply looks_bind (looks_lift (isPresent_tells path))
    intro present
    cases present with
    | true => exact looks_loadSettings path
    | false => exact ih

theorem looks_findSettings (env : Environment) (explicit? : Option String) :
    Looks (findSettings env explicit? : Task (StateM σ) Settings) := by
  cases explicit? with
  | none => exact looks_searchSettings _
  | some path => exact looks_loadSettings path

theorem looks_loadSchema (path : String) :
    Looks (loadSchema path : Task (StateM σ) LoadedSchema) := by
  apply looks_bind (looks_read path)
  intro result
  cases result with
  | error e => cases e <;> exact looks_throw _
  | ok source =>
    dsimp only
    cases Source.parse source with
    | ok declared => exact looks_pure _
    | error e => exact looks_throw _

theorem looks_loadLock (path : String) : Looks (loadLock path : Task (StateM σ) Document) := by
  apply looks_bind (looks_read path)
  intro result
  cases result with
  | error e => cases e <;> first | exact looks_pure _ | exact looks_throw _
  | ok text =>
    dsimp only
    cases Document.decode text with
    | ok document => exact looks_pure _
    | error e => exact looks_throw _

theorem looks_runParse (o : Options) (settings : Settings) (print : Bool) :
    Looks (runParse o settings print : Task (StateM σ) Unit) := by
  apply looks_bind (looks_loadSchema _)
  intro schema
  cases o.format with
  | human =>
    refine looks_bind (looks_err _) fun _ => looks_bind (looks_err _) fun _ => ?_
    cases print with
    | true => exact looks_bind (looks_out _) fun _ => looks_err _
    | false => exact looks_err _
  | json => exact looks_out _
  | plain => exact looks_bind (looks_err _) fun _ => looks_out _

theorem looks_runFmt (o : Options) (settings : Settings) (check : Bool) :
    Looks (runFmt o settings check : Task (StateM σ) Unit) := by
  apply looks_bind (looks_loadSchema _)
  intro schema
  apply looks_ite
  · have formatted : Looks (if o.format = .json then do
          Host.out (Json.object [("file", .string settings.schema),
            ("formatted", .bool true)]).document
          Host.err (o.success s!"{settings.schema} is formatted")
        else Host.err (o.success s!"{settings.schema} is formatted") : Task (StateM σ) Unit) :=
      looks_ite (looks_bind (looks_out _) fun _ => looks_err _) (looks_err _)
    exact looks_ite (looks_bind (looks_throw _) fun _ => formatted) formatted
  · cases o.format with
    | json => exact looks_ite (looks_bind (looks_err _) fun _ => looks_out _) (looks_out _)
    | _ => exact looks_ite (looks_bind (looks_err _) fun _ => looks_out _) (looks_out _)

theorem looks_showPlan (o : Options) (settings : Settings) :
    Looks (showPlan o settings : Task (StateM σ) Outcome) :=
  looks_bind (looks_loadSchema _) fun _ => looks_bind (looks_err _) fun _ =>
    looks_bind (looks_loadLock _) fun _ => looks_bind (looks_out _) fun _ => looks_pure _

theorem answer_read (path : String) (s : σ) :
    answer (Host.read path : Task (StateM σ) (Except FileError String)) s =
      .ok ((files s).read path) := congrArg Except.ok (read_tells path s).1

theorem answer_err (text : String) (s : σ) :
    answer (Host.err text : Task (StateM σ) Unit) s = .ok () := rfl

theorem answer_loadLock_of_notFound (h : (files s).read path = .error .notFound) :
    answer (loadLock path : Task (StateM σ) Document) s = .ok ∅ := by
  rw [loadLock, answer_bind, answer_read, h]
  rfl

theorem answer_loadLock_of_text (h : (files s).read path = .ok text) {d : Document}
    (read : Document.decode text = .ok d) :
    answer (loadLock path : Task (StateM σ) Document) s = .ok d := by
  rw [loadLock, answer_bind, answer_read, h]
  dsimp only [bind, Except.bind]
  rw [read]
  rfl

theorem answer_loadSchema_eq_ok_iff {l : LoadedSchema} :
    answer (loadSchema path : Task (StateM σ) LoadedSchema) s = .ok l ↔
      (files s).read path = .ok l.source ∧ Source.parse l.source = .ok l.declared := by
  rw [loadSchema, answer_bind, answer_read]
  dsimp only [bind, Except.bind]
  cases (files s).read path with
  | error e => cases e <;> exact iff_of_false (fun loaded => by cases loaded) (by simp)
  | ok source =>
    dsimp only
    cases parsed : Source.parse source with
    | error e =>
      refine iff_of_false (fun loaded => by cases loaded) ?_
      rintro ⟨read, declared⟩
      cases read
      rw [parsed] at declared
      cases declared
    | ok declared =>
      constructor
      · intro loaded
        cases loaded
        exact ⟨rfl, parsed⟩
      · rintro ⟨read, again⟩
        cases read
        rw [parsed] at again
        cases again
        rfl

/-- The changes that separate the lock file from the schema file. -/
def changesFound (schema lock : String) (s : σ) : Except Failure ChangeSet := do
  let l ← answer (loadSchema schema) s
  let baseline ← answer (loadLock lock) s
  return baseline.diff l.document

theorem changesFound_congr (schema lock : String) (same : files s = files t) :
    changesFound schema lock s = changesFound schema lock t := by
  rw [changesFound, (looks_loadSchema schema).answer_congr same,
    (looks_loadLock lock).answer_congr same, changesFound]

theorem answer_showPlan (o : Options) (settings : Settings) (s : σ) :
    answer (showPlan o settings) s = (do
      let l ← answer (loadSchema settings.schema) s
      let baseline ← answer (loadLock settings.lock) s
      return Outcome.of settings baseline l.document) := by
  rw [showPlan, answer_bind]
  congr 1
  funext l
  rw [answer_bind, answer_err]
  change answer (loadLock settings.lock >>= _) _ = _
  rw [answer_bind, (looks_loadLock _).answer_congr (t := s)]
  · rfl
  · rw [(looks_err _).files_after, (looks_loadSchema _).files_after]

/-- A file is written, or else folders on its way are all that was made. -/
theorem writeFile_cases (path text : String) (s : σ) :
    let x : Task (StateM σ) Unit := writeFile path text
    (answer x s = .ok () ∧
      ∃ t, Opens (way path) (files s) t ∧ t.write path text = .ok (files (after x s))) ∨
    (∃ e, answer x s = .error e) ∧ Opens (way path) (files s) (files (after x s)) := by
  intro x
  let made := Host.makeFolder (m := StateM σ) (parent path) s
  have opens : Opens (way path) (files s) (files made.2) := opens_makeFolder path s
  have folder : answer (onPath (parent path) (Host.makeFolder (m := StateM σ) (parent path))) s =
      made.1.mapError (.file (parent path)) := answer_onPath
  cases result : made.1 with
  | error e =>
    rw [result] at folder
    refine .inr ⟨⟨_, answer_bind_of_error folder⟩, ?_⟩
    rw [show after x s = made.2 from (after_bind_of_error folder).trans after_onPath]
    exact opens
  | ok _ =>
    rw [result] at folder
    let written := Host.write (m := StateM σ) path text made.2
    have result : answer x s = written.1.mapError (.file path) := by
      rw [show answer x s = _ from answer_bind_of_ok folder, after_onPath]
      exact answer_onPath
    have left : after x s = written.2 := by
      rw [show after x s = _ from after_bind_of_ok folder, after_onPath, after_onPath]
    rw [result, left]
    rcases write_tries path text made.2 with ⟨ok, put⟩ | ⟨⟨e, failed⟩, same⟩
    · refine .inl ⟨?_, _, opens, put⟩
      rw [ok]
      rfl
    · refine .inr ⟨⟨.file path e, ?_⟩, same ▸ opens⟩
      rw [failed]
      rfl

end SchemaPlan
