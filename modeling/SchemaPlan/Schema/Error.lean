/-!
# Schema errors

What keeps a name, type, attribute, model or document from being formed.
-/

namespace SchemaPlan

inductive SchemaError where
  | invalidModelName (text : String)
  | invalidFieldName (text : String)
  | invalidFieldType (text : String)
  | unknownAttribute (text : String)
  | duplicateModel (model : String)
  | duplicateField (model field : String)
  | duplicateDefault
  /-- A stored model is filed under a name other than its own. -/
  | modelNameMismatch (key name : String)
deriving DecidableEq, Repr

def SchemaError.message : SchemaError → String
  | .invalidModelName s => s!"invalid model name '{s}': must match [A-Za-z_][A-Za-z0-9_]*"
  | .invalidFieldName s => s!"invalid field name '{s}': must match [A-Za-z_][A-Za-z0-9_]*"
  | .invalidFieldType s => s!"invalid field type '{s}'"
  | .unknownAttribute s => s!"unknown attribute '{s}'"
  | .duplicateModel m => s!"duplicate model '{m}'"
  | .duplicateField m f => s!"duplicate field '{f}' in model '{m}'"
  | .duplicateDefault => "a field may carry at most one default value"
  | .modelNameMismatch key name => s!"model entry '{key}' declares a different name '{name}'"

end SchemaPlan
