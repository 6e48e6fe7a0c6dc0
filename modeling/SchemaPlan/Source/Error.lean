import SchemaPlan.Schema.Error
import SchemaPlan.Source.Span

/-!
# Errors and warnings in schema text

Each carries the line it was found on and the span of the offending text. An error ends the
reading; a warning tells of an attribute that was left out.
-/

namespace SchemaPlan.Source

inductive Error where
  /-- No lexeme starts here. Every character starts one, so scanning never gives it. -/
  | invalidToken (line column : Nat) (span : Span)
  | unterminatedAttribute (line column : Nat) (text : String) (span : Span)
  | unbalancedBraces (model : String) (line : Nat) (span : Span)
  | malformedLine (model : String) (line : Nat) (content : String) (span : Span)
  | malformedField (model : String) (line : Nat) (content reason : String) (span : Span)
  | duplicateField (model field : String) (line : Nat) (span : Span)
  | duplicateModel (model : String) (line : Nat) (span : Span)
  | duplicateDefault (model field : String) (line : Nat) (span : Span)
  | invalidSchema (cause : SchemaError) (line : Nat) (span : Span)
deriving DecidableEq, Repr

namespace Error

def line : Error → Nat
  | .invalidToken line .. => line
  | .unterminatedAttribute line .. => line
  | .unbalancedBraces _ line _ => line
  | .malformedLine _ line .. => line
  | .malformedField _ line .. => line
  | .duplicateField _ _ line _ => line
  | .duplicateModel _ line _ => line
  | .duplicateDefault _ _ line _ => line
  | .invalidSchema _ line _ => line

def span : Error → Span
  | .invalidToken _ _ span => span
  | .unterminatedAttribute _ _ _ span => span
  | .unbalancedBraces _ _ span => span
  | .malformedLine _ _ _ span => span
  | .malformedField _ _ _ _ span => span
  | .duplicateField _ _ _ span => span
  | .duplicateModel _ _ span => span
  | .duplicateDefault _ _ _ span => span
  | .invalidSchema _ _ span => span

/-- Found while the text was cut into tokens. -/
def isLexical : Error → Bool
  | .invalidToken .. | .unterminatedAttribute .. => true
  | _ => false

def message : Error → String
  | .invalidToken line column _ => s!"invalid token at line {line}, column {column}"
  | .unterminatedAttribute line column text _ =>
    s!"unterminated attribute '{text}' at line {line}, column {column}: missing ')'"
  | .unbalancedBraces model line _ =>
    s!"model '{model}' opened at line {line} is missing its closing '\x7d'"
  | .malformedLine model line content _ =>
    s!"malformed line {line} in model '{model}': '{content}'; " ++
      "expected 'name: type' or 'timestamps'"
  | .malformedField model line content reason _ =>
    s!"malformed field at line {line} in model '{model}': '{content}': {reason}"
  | .duplicateField model field line _ =>
    s!"duplicate field '{field}' in model '{model}' at line {line}"
  | .duplicateModel model line _ => s!"duplicate model '{model}' at line {line}"
  | .duplicateDefault model field line _ =>
    s!"field '{model}.{field}' at line {line} has more than one @default"
  | .invalidSchema cause line _ => s!"schema validation error at line {line}: {cause.message}"

/-- What is written under the marked span. -/
def label : Error → String
  | .invalidToken .. => "unrecognized character"
  | .unterminatedAttribute .. => "missing ')'"
  | .unbalancedBraces model .. => s!"model '{model}' starts here"
  | .malformedLine .. => "expected 'name: type'"
  | .malformedField _ _ _ reason _ => reason
  | .duplicateField _ field .. => s!"'{field}' is already defined above"
  | .duplicateModel model .. => s!"'{model}' is already defined above"
  | .duplicateDefault .. => "second @default"
  | .invalidSchema .. => "validation failed"

def help? : Error → Option String
  | .invalidToken .. => some "Remove the character or move it into a comment with '#'."
  | .unterminatedAttribute .. => some "Close the argument list on the same line."
  | .unbalancedBraces .. => some "Add a closing '\x7d' after the last field."
  | .malformedLine .. =>
    some "Write each field as 'name: type' followed by optional attributes."
  | .malformedField .. => none
  | .duplicateField .. => some "Remove the duplicate or rename one of the fields."
  | .duplicateModel .. => some "Merge the two definitions or rename one of the models."
  | .duplicateDefault .. => some "Keep a single @default(...) on the field."
  | .invalidSchema .. => none

end Error

inductive WarningKind where
  | unknownAttribute (tag : String)
  | duplicateAttribute (tag : String)
  | missingDefaultValue
  | ignoredArguments (tag : String)
deriving DecidableEq, Repr

structure Warning where
  kind : WarningKind
  model : String
  field : String
  line : Nat
  span : Span
deriving DecidableEq, Repr

def Warning.message (w : Warning) : String :=
  match w.kind with
  | .unknownAttribute tag =>
    s!"unknown attribute '@{tag}' on '{w.model}.{w.field}' at line {w.line} was ignored"
  | .duplicateAttribute tag =>
    s!"attribute '@{tag}' repeated on '{w.model}.{w.field}' at line {w.line}"
  | .missingDefaultValue =>
    s!"'@default' without a value on '{w.model}.{w.field}' at line {w.line} was ignored"
  | .ignoredArguments tag =>
    s!"arguments to '@{tag}' on '{w.model}.{w.field}' at line {w.line} were ignored"

end SchemaPlan.Source
