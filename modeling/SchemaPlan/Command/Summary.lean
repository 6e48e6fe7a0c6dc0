import SchemaPlan.Command.Message
import SchemaPlan.Source.Declaration

/-!
# Summaries

What a schema file holds, in numbers.
-/

namespace SchemaPlan

structure Summary where
  path : String
  declared : Source.Declared

namespace Summary

def modelCount (s : Summary) : Nat := s.declared.document.models.length

def fieldCount (s : Summary) : Nat :=
  s.declared.document.models.foldl (fun n m => n + m.fields.length) 0

def toJson (s : Summary) (printed? : Option String) : Json :=
  .object ([("file", .string s.path),
    ("models", .array (s.declared.document.models.map fun m =>
      .object [("name", .string m.name.text), ("fields", .number m.fields.length)])),
    ("model_count", .number s.modelCount), ("field_count", .number s.fieldCount),
    ("warnings", .array (s.declared.warnings.map fun w =>
      .object [("line", .number w.line), ("message", .string w.message)]))] ++
    (printed?.map fun text => ("printed", .string text)).toList)

def details (o : Options) (s : Summary) : String :=
  .join (s.declared.document.models.map fun m =>
    o.detail s!"{m.name} ({m.fields.length} fields)")

def text (s : Summary) : String :=
  s!"{s.path}: {s.modelCount} models, {s.fieldCount} fields, {s.declared.warnings.length} warnings"

end Summary

end SchemaPlan
