import SchemaPlan.Schema.Reader
import SchemaPlan.Text.Blank

/-!
# Snapshots

The lock file: the text of the last document that was synced. A blank text is the empty document.
-/

namespace SchemaPlan

inductive SnapshotError where
  | decode (message : String) (line column : Nat)
  | encode (message : String)
deriving DecidableEq, Repr

namespace SnapshotError

def ofJson (e : Json.Error) : SnapshotError := .decode e.message e.line e.column

def message : SnapshotError → String
  | .decode message line column => s!"invalid snapshot at line {line}, column {column}: {message}"
  | .encode message => s!"failed to encode snapshot: {message}"

end SnapshotError

def Document.decode (text : String) : Except SnapshotError Document :=
  if Text.trim text = "" then .ok ∅
  else (Json.decode Document.reader text).mapError .ofJson

end SchemaPlan
