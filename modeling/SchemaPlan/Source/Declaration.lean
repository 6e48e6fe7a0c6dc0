import SchemaPlan.Schema.Document
import SchemaPlan.Schema.Timestamps
import SchemaPlan.Source.Block
import SchemaPlan.Source.Tag

/-!
# Declarations

What the lines and blocks of a schema text declare. A line declares one field, or the pair of
timestamps; a block declares a model.
-/

namespace SchemaPlan.Source

def Token.isWord (t : Token) (word : String) : Bool := t.kind == .identifier && t.text == word

/-- Takes a token for a name. Tokens that name something are identifiers, so this does not fail
on them. -/
def Token.named (t : Token) (check : String → Except SchemaError Identifier) :
    Except Error Identifier :=
  (check t.text).mapError (.invalidSchema · t.line t.span)

namespace Line

/-- The type of a field, and the tokens after it. A relationship needs its target. -/
def typeClause (l : Line) (source : String) (model : Identifier) (word : Token)
    (rest : List Token) : Except Error (FieldType × List Token) :=
  if word.text = "belongsTo" then
    let malformed := .error (.malformedField model.text l.first.line (l.span.slice source)
      "belongsTo requires a target model, e.g. belongsTo(User)" l.span)
    match rest with
    | opening :: target :: closing :: rest =>
      if opening.kind = .openParen ∧ target.kind = .identifier ∧ closing.kind = .closeParen then do
        let target ← target.named modelName
        return (.belongsTo target, rest)
      else malformed
    | _ => malformed
  else .ok (.ofName word.text, rest)

def readField (l : Line) (source : String) (model : Identifier) (name word : Token)
    (rest : List Token) : Except Error (Field × List Warning) := do
  let fieldName ← name.named fieldName
  let (type, rest) ← l.typeClause source model word rest
  let (attributes, warnings) ← Site.applyTags ⟨model.text, fieldName.text⟩ ∅ rest
  return (⟨fieldName, type, attributes⟩, warnings)

def malformed (l : Line) (source : String) (model : Identifier) : Error :=
  .malformedLine model.text l.first.line (l.span.slice source) l.span

/-- The fields that a line declares. -/
def read (l : Line) (source : String) (model : Identifier) :
    Except Error (List Field × List Warning) :=
  match l.rest with
  | [] =>
    if l.first.isWord "timestamps" then .ok (timestampFields, [])
    else .error (l.malformed source model)
  | colon :: word :: rest =>
    if l.first.kind.isName ∧ colon.kind = .colon ∧ word.kind.isName then do
      let (field, warnings) ← l.readField source model l.first word rest
      return ([field], warnings)
    else .error (l.malformed source model)
  | _ => .error (l.malformed source model)

/-- Adds the fields of a line to those before it. -/
def declare (l : Line) (model : Identifier) (fields : List Field) :
    List Field → Except Error (List Field)
  | [] => .ok fields
  | f :: rest =>
    if f.name ∈ fields.map Field.name then
      .error (.duplicateField model.text f.name.text l.first.line l.span)
    else l.declare model (fields ++ [f]) rest

/-- Reads lines one after the other, starting from the fields declared before. -/
def readAll (source : String) (model : Identifier) (fields : List Field) :
    List Line → Except Error (List Field × List Warning)
  | [] => .ok (fields, [])
  | l :: rest => do
    let (declared, warnings) ← l.read source model
    let fields ← l.declare model fields declared
    let (fields, later) ← readAll source model fields rest
    return (fields, warnings ++ later)

end Line

namespace Block

def read (b : Block) (source : String) : Except Error (Model × List Warning) := do
  let name ← b.name.named modelName
  let (fields, warnings) ← Line.readAll source name [] (Line.ofBody b.body)
  let model ← (Model.ofFields name fields).mapError (.invalidSchema · b.name.line b.name.span)
  return (model, warnings)

/-- Reads blocks one after the other, starting from the models declared before. -/
def readAll (source : String) (document : Document) :
    List Block → Except Error (Document × List Warning)
  | [] => .ok (document, [])
  | b :: rest => do
    let (model, warnings) ← b.read source
    match document.insert model with
    | .error _ => .error (.duplicateModel model.name.text b.name.line b.name.span)
    | .ok document =>
      let (document, later) ← readAll source document rest
      return (document, warnings ++ later)

end Block

/-- What a schema text declares. -/
structure Declared where
  document : Document
  warnings : List Warning

/-- Reads a schema text. The text is cut into tokens as a whole first, and a block that does not
close is an error only after the blocks before it were read. -/
def parse (source : String) : Except Error Declared := do
  let tokens ← Token.tokenize source
  let outline := Outline.ofTokens tokens
  let (document, warnings) ← Block.readAll source ∅ outline.blocks
  match outline.unclosed? with
  | none => return ⟨document, warnings⟩
  | some (keyword, name) =>
    .error (.unbalancedBraces name.text keyword.line
      ⟨keyword.span.start, Text.byteLength source.toList⟩)

end SchemaPlan.Source
