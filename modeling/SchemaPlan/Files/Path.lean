/-!
# Paths

Names with slashes between them. Paths are relative to the folder that a command runs in.
-/

namespace SchemaPlan.Files

/-- The names that a path goes through. Slashes count once. -/
def steps (path : String) : List String :=
  ((path.toList.splitOn '/').filter (!·.isEmpty)).map .ofList

/-- The path demands a folder. -/
def endsInSlash (path : String) : Bool := path.toList.getLast? == some '/'

/-- Drops pieces at the end that lead nowhere, except the first. -/
def trimPieces (pieces : List (List Char)) : List (List Char) :=
  match pieces with
  | [] => []
  | first :: rest =>
    first :: (rest.reverse.dropWhile fun p => p.isEmpty || p == ['.']).reverse

theorem length_trimPieces_le (pieces : List (List Char)) :
    (trimPieces pieces).length ≤ pieces.length := by
  cases pieces with
  | nil => exact Nat.le_refl _
  | cons first rest =>
    have := (List.dropWhile_sublist (fun p => p.isEmpty || p == ['.']) (l := rest.reverse)).length_le
    simpa [trimPieces] using this

def parentPieces (pieces : List (List Char)) : List (List Char) :=
  trimPieces (trimPieces pieces).dropLast

def ofPieces (pieces : List (List Char)) : String := .ofList (['/'].intercalate pieces)

/-- The path without its last name: empty if there is no other. -/
def parent (path : String) : String := ofPieces (parentPieces (path.toList.splitOn '/'))

/-- What some pieces lead to, and the folders around it from the inside out. -/
def outward : List (List Char) → List String
  | [] => []
  | first :: rest =>
    if first = [] ∧ rest = [] then []
    else ofPieces (first :: rest) :: outward (parentPieces (first :: rest))
termination_by pieces => pieces.length
decreasing_by
  have outer := length_trimPieces_le (trimPieces (first :: rest)).dropLast
  have inner := length_trimPieces_le (first :: rest)
  simp only [List.length_dropLast] at outer
  simp only [parentPieces, List.length_cons] at *
  omega

/-- A path that leads to a folder, and those of the folders around it from the inside out. -/
def folders (path : String) : List String := outward (path.toList.splitOn '/')

/-- A path within a folder. -/
def within (folder path : String) : String :=
  if folder = "" ∨ endsInSlash folder then folder ++ path else s!"{folder}/{path}"

end SchemaPlan.Files
