import SchemaPlan.Proofs.Files.Place

/-!
# Edits of trees

What making folders and writing a file leave as it was. Folders stay, so what is found along one path
is not lost by edits at other places.
-/

namespace SchemaPlan.FileTree

open Files

variable {t u v : FileTree} {path other text : String}

/-- Nothing but a file has come, gone or changed, and that at the place of a path. -/
structure Edits (path : String) (t u : FileTree) : Prop where
  elsewhere : ∀ l, l ≠ place path → u.get? l = t.get? l
  before : t.get? (place path) ≠ some .folder
  after : u.get? (place path) ≠ some .folder

/-- Nothing but folders has come, and these at some locations. -/
def Opens (ls : List Location) (t u : FileTree) : Prop :=
  ∀ l, u.get? l = t.get? l ∨ l ∈ ls ∧ t.get? l = none ∧ u.get? l = some .folder

theorem find_of_folders_stay {content : ByteArray} (h : t.find path = .ok (.file content))
    (stay : ∀ l, t.get? l = some .folder → u.get? l = some .folder)
    (file : u.get? (place path) = some (.file content)) : u.find path = .ok (.file content) := by
  obtain ⟨nonempty, folders, -, noSlash⟩ := find_eq_file_iff.mp h
  exact find_eq_file_iff.mpr ⟨nonempty, fun l hl => stay l (folders l hl), file, noSlash⟩

namespace Edits

theorem folders_stay (h : Edits path t u) (l : Location) (folder : t.get? l = some .folder) :
    u.get? l = some .folder := by
  have ne : l ≠ place path := by
    intro same
    exact h.before (same ▸ folder)
  rw [h.elsewhere l ne, folder]

theorem fileAt_eq (h : Edits path t u) (apart : place path ≠ place other) :
    u.fileAt other = t.fileAt other := by
  rw [fileAt, h.elsewhere _ apart.symm, fileAt]

theorem find (h : Edits path t u) (apart : place path ≠ place other) {content : ByteArray}
    (found : t.find other = .ok (.file content)) : u.find other = .ok (.file content) := by
  apply find_of_folders_stay found h.folders_stay
  rw [h.elsewhere _ apart.symm]
  exact (find_eq_file_iff.mp found).2.2.1

/-- A file that is not in the way does not come to be. -/
theorem not_obstructed (h : Edits path t u) (aside : place path ∉ way other)
    (clear : ¬ t.Obstructed other) : ¬ u.Obstructed other := by
  intro obstructed
  rcases obstructed with folder | ⟨l, hl, content, file⟩
  · by_cases same : place path = place other
    · exact h.after (same ▸ folder)
    · rw [h.elsewhere _ (Ne.symm same)] at folder
      exact clear (.inl folder)
  · have ne : l ≠ place path := by
      intro same
      exact aside (same ▸ hl)
    rw [h.elsewhere l ne] at file
    exact clear (.inr ⟨l, hl, content, file⟩)

end Edits

theorem edits_put {entry : FileEntry} (before : t.get? (place path) ≠ some .folder)
    (after : entry ≠ .folder) : Edits path t (t.put (place path) entry) := by
  have ne : place path ≠ [] := by
    intro root
    exact before (root ▸ get?_nil t)
  refine ⟨fun l hl => get?_put_of_ne hl, before, ?_⟩
  rw [get?_put ne]
  intro same
  exact after (Option.some.inj same)

theorem write_eq_ok_iff :
    t.write path text = .ok u ↔
      path ≠ "" ∧ (∀ l ∈ way path, t.get? l = some .folder) ∧ endsInSlash path = false ∧
        t.get? (place path) ≠ some .folder ∧ t.put (place path) (.file text.toUTF8) = u := by
  unfold write writeBytes
  rw [bind_eq_ok_iff]
  constructor
  · intro h
    obtain ⟨l, located, written⟩ := h
    obtain ⟨nonempty, rfl, folders⟩ := locate_eq_ok_iff.mp located
    split at written
    · cases written
    · next free =>
      obtain ⟨noSlash, noFolder⟩ := not_or.mp free
      exact ⟨nonempty, folders, Bool.eq_false_iff.mpr noSlash, noFolder, Except.ok.inj written⟩
  · intro h
    obtain ⟨nonempty, folders, noSlash, noFolder, rfl⟩ := h
    refine ⟨place path, locate_eq_ok_iff.mpr ⟨nonempty, rfl, folders⟩, if_neg ?_⟩
    rw [noSlash, not_or]
    exact ⟨Bool.false_ne_true, noFolder⟩

theorem edits_of_write (h : t.write path text = .ok u) : Edits path t u := by
  obtain ⟨-, -, -, noFolder, rfl⟩ := write_eq_ok_iff.mp h
  exact edits_put noFolder (fun same => by cases same)

theorem find_of_write (h : t.write path text = .ok u) : u.find path = .ok (.file text.toUTF8) :=
  read_eq_ok_iff.mp (read_write h)

namespace Opens

variable {ls ks : List Location}

theorem refl (ls : List Location) (t : FileTree) : Opens ls t t := fun _ => .inl rfl

theorem trans (h : Opens ls t u) (h' : Opens ls u v) : Opens ls t v := by
  intro l
  rcases h' l with same' | ⟨mem, absent, folder⟩
  · rw [same']
    exact h l
  · rcases h l with same | ⟨-, -, made⟩
    · exact .inr ⟨mem, same ▸ absent, folder⟩
    · rw [absent] at made
      cases made

theorem folders_stay (h : Opens ls t u) (l : Location) (folder : t.get? l = some .folder) :
    u.get? l = some .folder := by
  rcases h l with same | made
  · rw [same, folder]
  · exact made.2.2

theorem get?_eq_file_iff (h : Opens ls t u) {l : Location} {content : ByteArray} :
    u.get? l = some (.file content) ↔ t.get? l = some (.file content) := by
  rcases h l with same | ⟨-, absent, folder⟩
  · rw [same]
  · simp [absent, folder]

theorem fileAt_eq (h : Opens ls t u) : u.fileAt path = t.fileAt path := by
  ext1 content
  rw [fileAt_eq_some_iff, fileAt_eq_some_iff, h.get?_eq_file_iff]

theorem find (h : Opens ls t u) {content : ByteArray} (found : t.find path = .ok (.file content)) :
    u.find path = .ok (.file content) :=
  find_of_folders_stay found h.folders_stay
    (h.get?_eq_file_iff.mpr (find_eq_file_iff.mp found).2.2.1)

theorem not_obstructed (h : Opens ls t u) (aside : place path ∉ ls) (clear : ¬ t.Obstructed path) :
    ¬ u.Obstructed path := by
  intro obstructed
  rcases obstructed with folder | ⟨l, hl, content, file⟩
  · rcases h (place path) with same | made
    · exact clear (.inl (same ▸ folder))
    · exact aside made.1
  · exact clear (.inr ⟨l, hl, content, h.get?_eq_file_iff.mp file⟩)

end Opens

theorem opens_of_addFolder {ls : List Location} (h : t.addFolder path = .ok u)
    (mem : place path = [] ∨ place path ∈ ls) : Opens ls t u := by
  obtain ⟨l, located, made⟩ := bind_eq_ok_iff.mp h
  obtain ⟨-, rfl, -⟩ := locate_eq_ok_iff.mp located
  split at made
  · cases made
  · next free =>
    cases made
    have absent : t.get? (place path) = none := by simpa using free
    have ne : place path ≠ [] := by
      intro root
      rw [root, get?_nil] at absent
      cases absent
    intro l
    by_cases same : l = place path
    · rw [same, get?_put ne]
      exact .inr ⟨mem.resolve_left ne, absent, rfl⟩
    · exact .inl (get?_put_of_ne same)

end SchemaPlan.FileTree
