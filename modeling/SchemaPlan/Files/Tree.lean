import SchemaPlan.Files.Host

/-!
# File trees

The files and folders below one folder, each at its location: the names that lead there.
-/

namespace SchemaPlan

inductive FileEntry where
  | folder
  | file (content : ByteArray)

instance : DecidableEq FileEntry := fun
  | .folder, .folder => isTrue rfl
  | .folder, .file _ => isFalse nofun
  | .file _, .folder => isFalse nofun
  | .file a, .file b =>
    if h : a.data = b.data then isTrue (congrArg FileEntry.file (ByteArray.ext h))
    else isFalse fun e => h (congrArg ByteArray.data (FileEntry.file.inj e))

abbrev Location := List String

structure FileTree where
  entries : List (Location × FileEntry)

namespace FileTree

def empty : FileTree := ⟨[]⟩

instance : EmptyCollection FileTree := ⟨empty⟩

/-- What is at a location. The tree itself is a folder. -/
def get? (t : FileTree) (l : Location) : Option FileEntry :=
  if l = [] then some .folder else (t.entries.find? (·.1 == l)).map Prod.snd

def put (t : FileTree) (l : Location) (e : FileEntry) : FileTree :=
  ⟨(l, e) :: t.entries.filter (·.1 != l)⟩

theorem get?_put {t : FileTree} {l : Location} {e : FileEntry} (h : l ≠ []) :
    (t.put l e).get? l = some e := by simp [get?, put, h]

theorem get?_put_of_ne {t : FileTree} {l k : Location} {e : FileEntry} (h : k ≠ l) :
    (t.put l e).get? k = t.get? k := by
  unfold get? put
  split
  · rfl
  · have : (l == k) = false := by simpa using h.symm
    simp only [List.find?_cons, this, List.find?_filter]
    congr 2
    funext p
    by_cases hp : p.1 = k <;> simp [hp, h]

/-- Where a name leads from a location. -/
def follow (l : Location) (name : String) : Location :=
  if name = "." then l else if name = ".." then l.dropLast else l ++ [name]

/-- The location that names lead to through folders. -/
def enter (t : FileTree) (l : Location) : List String → Except FileError Location
  | [] => .ok l
  | name :: rest =>
    match t.get? (follow l name) with
    | some .folder => t.enter (follow l name) rest
    | some (.file _) => .error .notFolder
    | none => .error .notFound

/-- The location of a path whose last name need not be present. -/
def locate (t : FileTree) (path : String) : Except FileError Location :=
  match (Files.steps path).getLast? with
  | none => if path = "" then .error .notFound else .ok []
  | some last => (t.enter [] (Files.steps path).dropLast).map (follow · last)

def find (t : FileTree) (path : String) : Except FileError FileEntry := do
  match t.get? (← t.locate path) with
  | none => .error .notFound
  | some .folder => .ok .folder
  | some (.file content) =>
    if Files.endsInSlash path then .error .notFolder else .ok (.file content)

def isFolder (t : FileTree) (path : String) : Bool :=
  match t.find path with
  | .ok .folder => true
  | _ => false

/-- Makes a folder in one that is there. -/
def addFolder (t : FileTree) (path : String) : Except FileError FileTree := do
  let l ← t.locate path
  if (t.get? l).isSome then .error .alreadyExists else .ok (t.put l .folder)

def read (t : FileTree) (path : String) : Except FileError String := do
  match ← t.find path with
  | .folder => .error .isFolder
  | .file content =>
    match String.fromUTF8? content with
    | some text => .ok text
    | none => .error .notText

def writeBytes (t : FileTree) (path : String) (content : ByteArray) :
    Except FileError FileTree := do
  let l ← t.locate path
  if Files.endsInSlash path ∨ t.get? l = some .folder then .error .isFolder
  else .ok (t.put l (.file content))

def write (t : FileTree) (path text : String) : Except FileError FileTree :=
  t.writeBytes path text.toUTF8

/-- A way through folders stays open when something is put where no folder is. -/
theorem enter_put {t : FileTree} {l k r : Location} {e : FileEntry} {names : List String}
    (hl : t.get? l ≠ some .folder) (h : t.enter k names = .ok r) :
    (t.put l e).enter k names = .ok r := by
  induction names generalizing k with
  | nil => exact h
  | cons name rest ih =>
    simp only [enter] at h ⊢
    split at h
    · next folder =>
      have ne : follow k name ≠ l := by
        rintro rfl
        exact hl folder
      rw [get?_put_of_ne ne, folder]
      exact ih h
    · cases h
    · cases h

theorem locate_put {t : FileTree} {l r : Location} {e : FileEntry} {path : String}
    (hl : t.get? l ≠ some .folder) (h : t.locate path = .ok r) :
    (t.put l e).locate path = .ok r := by
  unfold locate at h ⊢
  cases hn : (Files.steps path).getLast? with
  | none => simpa only [hn] using h
  | some last =>
    simp only [hn] at h ⊢
    cases he : t.enter [] (Files.steps path).dropLast with
    | error _ => rw [he] at h; cases h
    | ok k => rw [he] at h; rw [enter_put hl he]; exact h

/-- A text that was written is there to be read. -/
theorem read_write {t u : FileTree} {path text : String} (h : t.write path text = .ok u) :
    u.read path = .ok text := by
  unfold write writeBytes at h
  cases hl : t.locate path with
  | error _ => rw [hl] at h; cases h
  | ok l =>
    rw [hl] at h
    simp only [bind, Except.bind] at h
    split at h
    · cases h
    · next free =>
      obtain ⟨noSlash, noFolder⟩ := not_or.mp free
      have ne : l ≠ [] := by
        rintro rfl
        exact noFolder (by simp [get?])
      cases h
      have valid : String.fromUTF8? text.toByteArray = some text := dif_pos text.isValidUTF8
      simp [read, find, locate_put noFolder hl, get?_put ne, noSlash, valid, bind, Except.bind]

/-- Takes away what is at a path, with all below it. -/
def remove (t : FileTree) (path : String) : FileTree :=
  match t.locate path with
  | .ok l => ⟨t.entries.filter fun e => !l.isPrefixOf e.1⟩
  | .error _ => t

/-- The locations whose files are not those of an earlier tree, with the bytes they hold. -/
def filesSince (t earlier : FileTree) : List (Location × ByteArray) :=
  t.entries.filterMap fun
    | (l, .file content) =>
      if earlier.get? l = some (.file content) then none else some (l, content)
    | (_, .folder) => none

end FileTree

end SchemaPlan
