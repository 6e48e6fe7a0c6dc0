import SchemaPlan.Files.Session
import SchemaPlan.Proofs.Files.Edit

/-!
# Hosts with files

Hosts whose files are those of a tree. Such a host is free to refuse a change, but makes no other
one than it is asked for.
-/

namespace SchemaPlan

variable {σ α : Type}

theorem run_bind {β : Type} (x : StateM σ α) (f : α → StateM σ β) (s : σ) :
    (x >>= f) s = f (x s).1 (x s).2 := rfl

/-- Answers by the files alone, and leaves them. -/
def Tells (files : σ → FileTree) (x : StateM σ α) (answer : FileTree → α) : Prop :=
  ∀ s, (x s).1 = answer (files s) ∧ files (x s).2 = files s

/-- Changes the files in one way or not at all. -/
def Tries (files : σ → FileTree) (x : StateM σ (Except FileError Unit))
    (change : FileTree → Except FileError FileTree) : Prop :=
  ∀ s, ((x s).1 = .ok () ∧ change (files s) = .ok (files (x s).2)) ∨
    ((∃ e, (x s).1 = .error e) ∧ files (x s).2 = files s)

/-- A host that keeps a tree of files. A text is written as a whole or not at all. -/
class FileStore (σ : Type) extends Host (StateM σ) where
  files : σ → FileTree
  isPresent_tells : ∀ path, Tells files (isPresent path) fun t => (t.find path).isOk
  isFolder_tells : ∀ path, Tells files (isFolder path) (·.isFolder path)
  read_tells : ∀ path, Tells files (read path) (·.read path)
  out_tells : ∀ text, Tells files (out text) fun _ => ()
  err_tells : ∀ text, Tells files (err text) fun _ => ()
  addFolder_tries : ∀ path, Tries files (addFolder path) (·.addFolder path)
  write_tries : ∀ path text, Tries files (write path text) (·.write path text)

theorem Session.update_tries (change : FileTree → Except FileError FileTree) :
    Tries Session.files (update change) change := by
  intro s
  unfold update
  cases changed : change s.files with
  | ok t => exact .inl ⟨rfl, rfl⟩
  | error e => exact .inr ⟨⟨e, rfl⟩, rfl⟩

instance : FileStore Session where
  files := Session.files
  isPresent_tells _ _ := ⟨rfl, rfl⟩
  isFolder_tells _ _ := ⟨rfl, rfl⟩
  read_tells _ _ := ⟨rfl, rfl⟩
  out_tells _ _ := ⟨rfl, rfl⟩
  err_tells _ _ := ⟨rfl, rfl⟩
  addFolder_tries _ := Session.update_tries _
  write_tries _ _ := Session.update_tries _

namespace FileStore

open Files FileTree

variable [FileStore σ] {ls : List Location}

theorem opens_ensureFolder {path : String} (mem : place path = [] ∨ place path ∈ ls) (s : σ) :
    Opens ls (files s) (files (Host.ensureFolder (m := StateM σ) path s).2) := by
  have added : Opens ls (files s) (files (Host.addFolder (m := StateM σ) path s).2) := by
    rcases addFolder_tries path s with ⟨-, made⟩ | ⟨-, same⟩
    · exact opens_of_addFolder made mem
    · rw [same]
      exact .refl _ _
  rw [Host.ensureFolder, run_bind]
  cases (Host.addFolder (m := StateM σ) path s).1 with
  | ok _ => exact added
  | error e =>
    have told := isFolder_tells path (Host.addFolder (m := StateM σ) path s).2
    exact told.2 ▸ added

theorem opens_ensureFolders {paths : List String}
    (mem : ∀ path ∈ paths, place path = [] ∨ place path ∈ ls) (s : σ) :
    Opens ls (files s) (files (Host.ensureFolders (m := StateM σ) paths s).2) := by
  induction paths generalizing s with
  | nil => exact .refl _ _
  | cons path outer ih =>
    obtain ⟨first, rest⟩ := List.forall_mem_cons.mp mem
    have inner := opens_ensureFolder first s
    rw [Host.ensureFolders, run_bind]
    cases (Host.ensureFolder (m := StateM σ) path s).1 with
    | ok _ => exact inner
    | error e =>
      cases e with
      | notFound =>
        have around := ih rest (Host.ensureFolder (m := StateM σ) path s).2
        dsimp only
        rw [run_bind]
        generalize Host.ensureFolders (m := StateM σ) outer _ = made at around ⊢
        cases made.1 with
        | ok _ => exact inner.trans (around.trans (opens_ensureFolder first _))
        | error _ => exact inner.trans around
      | _ => exact inner

/-- The folders that a file at a path needs are made on its way. -/
theorem opens_makeFolder (path : String) (s : σ) :
    Opens (way path) (files s) (files (Host.makeFolder (m := StateM σ) (parent path) s).2) :=
  opens_ensureFolders (fun _ h => place_mem_way_of_mem_folders h) s

end FileStore

end SchemaPlan
