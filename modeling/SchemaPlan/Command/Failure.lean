import SchemaPlan.Command.Invocation
import SchemaPlan.Files.Host
import SchemaPlan.Json.Value
import SchemaPlan.Schema.Snapshot
import SchemaPlan.Source.Error

/-!
# Failures

Why a command ends before its work is done, what it then reports, and the code it leaves with.
-/

namespace SchemaPlan

inductive Failure where
  | source (path : String) (error : Source.Error)
  | snapshot (path : String) (error : SnapshotError)
  | file (path : String) (error : FileError)
  | settings (message : String)
  | schemaMissing (path : String)
  | unformatted (path : String)
  | other (message : String)
deriving DecidableEq, Repr

namespace Failure

def message : Failure → String
  | .source path error => s!"parse error in {path}: {error.message}"
  | .snapshot path error => s!"lock file {path}: {error.message}"
  | .file path error => s!"IO error for {path}: {error.message}"
  | .settings message => s!"configuration error: {message}"
  | .schemaMissing path => s!"schema file {path} not found"
  | .unformatted path => s!"{path} is not formatted"
  | .other message => message

def exitCode : Failure → Nat
  | .snapshot .. | .file .. | .other _ => 1
  | .settings _ | .schemaMissing _ => 2
  | .source .. => 3
  | .unformatted _ => 4

def toJson (f : Failure) : Json :=
  match f with
  | .source path error =>
    .object [("error", .string "parse_error"), ("file", .string path),
      ("line", .number error.line), ("message", .string error.message)]
  | .snapshot path error =>
    .object [("error", .string "snapshot_error"), ("message", .string error.message),
      ("path", .string path)]
  | .file path error =>
    .object [("error", .string "io_error"), ("message", .string error.message),
      ("path", .string path)]
  | .settings message =>
    .object [("error", .string "config_error"), ("message", .string message)]
  | .unformatted path => .object [("error", .string "unformatted"), ("path", .string path)]
  | .schemaMissing _ | .other _ =>
    .object [("error", .string "error"), ("message", .string f.message)]

/-- Advice that goes with an error in schema text. -/
def advice : Failure → String
  | .source _ error => (error.help?.map fun help => s!"  help: {help}\n").getD ""
  | _ => ""

def report (f : Failure) : Format → String
  | .human => s!"error: {f.message}\n{f.advice}"
  | .json => s!"{f.toJson.compact}\n"
  | .plain => s!"error\t{f.message}\n"

end Failure

end SchemaPlan
