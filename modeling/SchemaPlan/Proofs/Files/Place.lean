import SchemaPlan.Files.Tree
import SchemaPlan.Proofs.Files.Path
import SchemaPlan.Proofs.Result

/-!
# Places of paths

A path leads to one place, whatever is there. What a tree has on the way decides whether the place
is reached.
-/

namespace SchemaPlan

namespace Files

/-- The locations that names lead to one after another. -/
def stops (l : Location) : List String → List Location
  | [] => []
  | name :: rest => FileTree.follow l name :: stops (FileTree.follow l name) rest

/-- Where a path leads if nothing is in its way. -/
def place (path : String) : Location := (steps path).foldl FileTree.follow []

/-- What has to be a folder for something to be at the place of a path. -/
def way (path : String) : List Location := stops [] (steps path).dropLast

theorem mem_stops {ns ms : List String} {l : Location} (h : ns <+: ms) :
    ns.foldl FileTree.follow l ∈ l :: stops l ms := by
  induction ns generalizing l ms with
  | nil => exact List.mem_cons_self
  | cons n ns ih =>
    obtain ⟨more, rfl⟩ := h
    exact List.mem_cons_of_mem l (ih (List.prefix_append ns more))

/-- The folders around a file are on its way. -/
theorem place_mem_way_of_mem_folders {path folder : String} (h : folder ∈ folders (parent path)) :
    place folder = [] ∨ place folder ∈ way path :=
  List.mem_cons.mp (mem_stops (steps_isPrefix_of_mem_folders h))

end Files

namespace FileTree

open Files

variable {t u v : FileTree} {path text : String}

@[simp] theorem get?_nil (t : FileTree) : t.get? [] = some .folder := if_pos rfl

theorem enter_eq_ok_iff {l r : Location} {ns : List String} :
    t.enter l ns = .ok r ↔
      ns.foldl follow l = r ∧ ∀ k ∈ stops l ns, t.get? k = some .folder := by
  induction ns generalizing l with
  | nil => simp [enter, stops]
  | cons n ns ih =>
    rw [enter, List.foldl_cons, stops, List.forall_mem_cons]
    split
    · next folder => simp [ih, folder]
    · next file => simp [file]
    · next absent => simp [absent]

theorem enter_eq_error {l : Location} {ns : List String} {e : FileError}
    (h : t.enter l ns = .error e) :
    e = .notFound ∨ ∃ k ∈ stops l ns, ∃ content, t.get? k = some (.file content) := by
  induction ns generalizing l with
  | nil => cases h
  | cons n ns ih =>
    rw [enter] at h
    split at h
    · rcases ih h with absent | ⟨k, hk, file⟩
      · exact .inl absent
      · exact .inr ⟨k, List.mem_cons_of_mem _ hk, file⟩
    · next content file => exact .inr ⟨_, List.mem_cons_self, content, file⟩
    · cases h
      exact .inl rfl

theorem locate_eq_ok_iff {l : Location} :
    t.locate path = .ok l ↔
      path ≠ "" ∧ place path = l ∧ ∀ k ∈ way path, t.get? k = some .folder := by
  unfold locate place way
  rcases List.eq_nil_or_concat' (steps path) with none | ⟨init, last, split⟩
  · rw [none]
    by_cases empty : path = ""
    · simp [empty]
    · simp [empty, stops]
  · have nonempty : path ≠ "" := by
      intro empty
      rw [empty] at split
      exact List.append_ne_nil_of_right_ne_nil init (List.cons_ne_nil last []) split.symm
    rw [split, List.getLast?_concat, List.dropLast_concat, List.foldl_concat]
    simp only [map_eq_ok_iff, enter_eq_ok_iff, ne_eq, nonempty, not_false_eq_true, true_and]
    constructor
    · intro h
      obtain ⟨k, ⟨rfl, folders⟩, rfl⟩ := h
      exact ⟨rfl, folders⟩
    · intro h
      exact ⟨_, ⟨rfl, h.2⟩, h.1⟩

theorem find_eq_file_iff {content : ByteArray} :
    t.find path = .ok (.file content) ↔
      path ≠ "" ∧ (∀ k ∈ way path, t.get? k = some .folder) ∧
        t.get? (place path) = some (.file content) ∧ endsInSlash path = false := by
  unfold find
  rw [bind_eq_ok_iff]
  constructor
  · intro h
    obtain ⟨l, located, found⟩ := h
    obtain ⟨nonempty, rfl, folders⟩ := locate_eq_ok_iff.mp located
    split at found
    · cases found
    · cases found
    · next file =>
      split at found
      · cases found
      · next noSlash =>
        cases found
        exact ⟨nonempty, folders, file, Bool.eq_false_iff.mpr noSlash⟩
  · intro h
    obtain ⟨nonempty, folders, file, noSlash⟩ := h
    refine ⟨place path, locate_eq_ok_iff.mpr ⟨nonempty, rfl, folders⟩, ?_⟩
    simp [file, noSlash]

theorem fromUTF8?_eq_some_iff {content : ByteArray} :
    String.fromUTF8? content = some text ↔ content = text.toUTF8 := by
  unfold String.fromUTF8?
  constructor
  · intro h
    split at h
    · cases h
      rfl
    · cases h
  · intro h
    subst h
    exact dif_pos text.isValidUTF8

theorem read_eq_ok_iff : t.read path = .ok text ↔ t.find path = .ok (.file text.toUTF8) := by
  unfold read
  rw [bind_eq_ok_iff]
  constructor
  · intro h
    obtain ⟨entry, found, read⟩ := h
    split at read
    · cases read
    · split at read
      · next valid =>
        cases read
        rw [found, fromUTF8?_eq_some_iff.mp valid]
      · cases read
  · intro h
    have valid : String.fromUTF8? text.toUTF8 = some text := fromUTF8?_eq_some_iff.mpr rfl
    exact ⟨_, h, by simp only [valid]⟩

/-- The bytes of the file at the place of a path. -/
def fileAt (t : FileTree) (path : String) : Option ByteArray :=
  match t.get? (place path) with
  | some (.file content) => some content
  | _ => none

/-- Nothing can be a file at the path: it leads to a folder, or through a file. -/
def Obstructed (t : FileTree) (path : String) : Prop :=
  t.get? (place path) = some .folder ∨
    ∃ l ∈ way path, ∃ content, t.get? l = some (.file content)

theorem fileAt_eq_some_iff {content : ByteArray} :
    t.fileAt path = some content ↔ t.get? (place path) = some (.file content) := by
  unfold fileAt
  split
  · next file => simp [file]
  · next other => exact iff_of_false (by simp) (other content)

theorem fileAt_eq_of_find {content : ByteArray} (h : t.find path = .ok (.file content)) :
    t.fileAt path = some content :=
  fileAt_eq_some_iff.mpr (find_eq_file_iff.mp h).2.2.1

/-- Where no file is, there is nothing to read, unless something is in the way. -/
theorem read_eq_notFound (none : t.fileAt path = none) (clear : ¬ t.Obstructed path) :
    t.read path = .error .notFound := by
  unfold read find
  cases located : t.locate path with
  | error e =>
    have absent : e = .notFound := by
      unfold locate at located
      split at located
      · split at located
        · cases located
          rfl
        · cases located
      · cases entered : t.enter [] (steps path).dropLast with
        | ok l =>
          rw [entered] at located
          cases located
        | error e' =>
          rw [entered] at located
          cases located
          rcases enter_eq_error entered with absent | file
          · exact absent
          · exact absurd (.inr file) clear
    rw [absent]
    rfl
  | ok l =>
    obtain ⟨-, rfl, -⟩ := locate_eq_ok_iff.mp located
    cases found : t.get? (place path) with
    | none => simp [bind, Except.bind, found]
    | some entry =>
      cases entry with
      | folder => exact absurd (.inl found) clear
      | file content =>
        rw [fileAt_eq_some_iff.mpr found] at none
        cases none

end FileTree

end SchemaPlan
