import SchemaPlan.Files.Tree

/-!
# Sessions

A host that is a value: a file tree, and what has been put out so far. What a command does to files
and says is a function of the session it starts in.
-/

namespace SchemaPlan

structure Session where
  files : FileTree
  out : String := ""
  err : String := ""

namespace Session

/-- Goes on with the tree that an operation results in. -/
def update (r : FileTree → Except FileError FileTree) : StateM Session (Except FileError Unit) :=
  fun s =>
    match r s.files with
    | .ok files => (.ok (), { s with files := files })
    | .error e => (.error e, s)

instance : Host (StateM Session) where
  isPresent path := fun s => ((s.files.find path).isOk, s)
  isFolder path := fun s => (s.files.isFolder path, s)
  read path := fun s => (s.files.read path, s)
  addFolder path := update (·.addFolder path)
  write path text := update (·.write path text)
  out text := fun s => ((), { s with out := s.out ++ text })
  err text := fun s => ((), { s with err := s.err ++ text })

end Session

end SchemaPlan
