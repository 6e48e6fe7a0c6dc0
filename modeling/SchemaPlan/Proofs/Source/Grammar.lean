import Mathlib.Data.List.Forall2
import SchemaPlan.Proofs.Schema.AttributeSet
import SchemaPlan.Proofs.Schema.Meaning
import SchemaPlan.Proofs.Source.Word
import SchemaPlan.Schema.Document
import SchemaPlan.Schema.Timestamps

/-!
# The grammar of schema text

What a schema text says, told by its words alone and without a reader: where its blocks are, which
lines they hold, and which fields these lines declare.
-/

namespace SchemaPlan.Source

/-- Words in which braces come in pairs. -/
inductive Balanced : List Word → Prop
  | nil : Balanced []
  | plain {w ws} : w.kind ≠ .openBrace → w.kind ≠ .closeBrace → Balanced ws → Balanced (w :: ws)
  | nested {opening closing inner ws} : opening.kind = .openBrace → Balanced inner →
      closing.kind = .closeBrace → Balanced ws →
      Balanced (opening :: inner ++ closing :: ws)

/-- Words that open a block, its name, and the words after the brace. Line breaks may stand around
the name. -/
inductive Opens : List Word → Word → List Word → Prop
  | intro {keyword name brace : Word} {first second inside : List Word} :
      keyword.kind = .model → (∀ w ∈ first, w.kind = .newline) → name.kind = .identifier →
      (∀ w ∈ second, w.kind = .newline) → brace.kind = .openBrace →
      Opens (keyword :: first ++ name :: second ++ brace :: inside) name inside

/-- A block as it is written: the name, and the words between the braces. -/
structure Declaration where
  name : Word
  body : List Word

/-- The blocks among some words. A block goes from words that open it to the brace that balances;
words that open no block are skipped one by one. -/
inductive Outlined : List Word → List Declaration → Prop
  | nil : Outlined [] []
  | skip {w ws ds} : (∀ name inside, ¬ Opens (w :: ws) name inside) → Outlined ws ds →
      Outlined (w :: ws) ds
  | block {ws body after name closing ds} : Opens ws name (body ++ closing :: after) →
      Balanced body → closing.kind = .closeBrace → Outlined after ds →
      Outlined ws (⟨name, body⟩ :: ds)

/-- The lines among some words that hold a word. -/
def linesOf (ws : List Word) : List (List Word) :=
  (ws.splitOnP (·.kind == .newline)).filter (· ≠ [])

def Declaration.lines (d : Declaration) : List (List Word) := linesOf d.body

/-- A line that declares a field, with the field's name and type and the words after the type. -/
inductive FieldLine : List Word → Identifier → FieldType → List Word → Prop
  | plain {name colon type : Word} {rest : List Word} {fieldName : Identifier}
      {fieldType : FieldType} :
      name.kind.isName → name.text = fieldName.text → colon.kind = .colon → type.kind.isName →
      type.text ≠ "belongsTo" → fieldType.NamedBy type.text →
      FieldLine (name :: colon :: type :: rest) fieldName fieldType rest
  | relation {name colon type opening target closing : Word} {rest : List Word}
      {fieldName targetName : Identifier} :
      name.kind.isName → name.text = fieldName.text → colon.kind = .colon → type.kind.isName →
      type.text = "belongsTo" → opening.kind = .openParen → target.kind = .identifier →
      target.text = targetName.text → closing.kind = .closeParen →
      FieldLine (name :: colon :: type :: opening :: target :: closing :: rest) fieldName
        (.belongsTo targetName) rest

/-- The line that stands for the pair of timestamps. -/
def timestampsLine : List Word := [⟨.identifier, "timestamps"⟩]

/-- The attribute that a tag says. Tags outside the vocabulary say none, nor does a default of
blanks only. -/
inductive Means : String → Attribute → Prop
  | flag (f : Flag) : Means ("@" ++ f.name) (.flag f)
  | flagWith (f : Flag) {arguments : String} : ')' ∉ arguments.toList →
      Means ("@" ++ f.name ++ "(" ++ arguments ++ ")") (.flag f)
  | default {arguments : String} : ')' ∉ arguments.toList →
      (∃ c ∈ arguments.toList, ¬ Text.isBlank c) →
      Means ("@default(" ++ arguments ++ ")") (.default (Text.trim arguments))

/-- The attributes that the tags among some words say, in order. Other words say nothing. -/
def Tagged : List Word → List Attribute → Prop := Told fun w a => w.kind = .tag ∧ Means w.text a

/-- A default that is not of blanks only. -/
def Word.IsDefault (w : Word) : Prop := w.kind = .tag ∧ ∃ value, Means w.text (.default value)

/-- At most one of some words is a default. -/
def OneDefault (ws : List Word) : Prop := ws.Pairwise fun v w => ¬ (v.IsDefault ∧ w.IsDefault)

/-- The fields that a line declares. A field keeps the first attribute of each kind; a second
default is not passed over. -/
inductive LineDeclares : List Word → List Field → Prop
  | timestamps : LineDeclares timestampsLine timestampFields
  | field {line rest : List Word} {name : Identifier} {type : FieldType} {as : List Attribute}
      {set : AttributeSet} : FieldLine line name type rest → Tagged rest as →
      Attribute.OneDefault as → set.members = Attribute.firsts as →
      LineDeclares line [⟨name, type, set⟩]

/-- The names that a line gives to fields. -/
def fieldNames (line : List Word) : List String :=
  if line = timestampsLine then ["created_at", "updated_at"] else (line.take 1).map Word.text

/-- A block declares a model: its name, and the fields of its lines one after the other. -/
def Declaration.Declares (d : Declaration) (m : Model) : Prop :=
  m.name.text = d.name.text ∧
    ∃ fields, List.Forall₂ LineDeclares d.lines fields ∧ m.fields = fields.flatten

end SchemaPlan.Source
