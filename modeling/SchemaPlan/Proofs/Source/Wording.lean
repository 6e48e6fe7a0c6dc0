import SchemaPlan.Proofs.Schema.Printable
import SchemaPlan.Proofs.Source.Grammar
import SchemaPlan.Proofs.Source.Lexing
import SchemaPlan.Proofs.Source.Tag
import SchemaPlan.Schema.Print

/-!
# The words of printed schemas

A printed document is laid out again as words: what is printed for a printable document has just these
words.
-/

namespace SchemaPlan

open Source

/-- A line of a printed model: a field, or the pair of timestamps. -/
inductive PrintedLine where
  | field (f : Field)
  | timestamps

namespace PrintedLine

def text : PrintedLine → String
  | .field f => f.text
  | .timestamps => "timestamps"

def fields : PrintedLine → List Field
  | .field f => [f]
  | .timestamps => timestampFields

end PrintedLine

def printedLines : List Field → List PrintedLine
  | [] => []
  | [f] => [.field f]
  | f :: g :: rest =>
    if [f, g] == timestampFields then .timestamps :: printedLines rest
    else .field f :: printedLines (g :: rest)

theorem map_text_printedLines (fields : List Field) :
    (printedLines fields).map PrintedLine.text = fieldLines fields := by
  fun_induction printedLines fields with
  | case1 => rfl
  | case2 f => rfl
  | case3 f g rest pair ih => rw [fieldLines, if_pos pair, List.map_cons, ih]; rfl
  | case4 f g rest single ih => rw [fieldLines, if_neg single, List.map_cons, ih]; rfl

/-- The lines that are printed for fields stand for just these. -/
theorem flatMap_fields_printedLines (fields : List Field) :
    (printedLines fields).flatMap PrintedLine.fields = fields := by
  fun_induction printedLines fields with
  | case1 => rfl
  | case2 f => rfl
  | case3 f g rest pair ih =>
    rw [List.flatMap_cons, ih, PrintedLine.fields, ← timestampFields_of_beq pair]
    rfl
  | case4 f g rest single ih =>
    rw [List.flatMap_cons, ih]
    rfl

theorem mem_fields_of_mem_printedLines {fields : List Field} {line : PrintedLine} {f : Field}
    (hline : line ∈ printedLines fields) (hf : f ∈ line.fields) : f ∈ fields := by
  rw [← flatMap_fields_printedLines fields]
  exact List.mem_flatMap.mpr ⟨line, hline, hf⟩

def FieldType.wording : FieldType → List Word
  | .primitive p => [.named p.name]
  | .belongsTo target => [.named "belongsTo", .mark '(', .named target.text, .mark ')']
  | .other s => [.named s]

def Attribute.word (a : Attribute) : Word := ⟨.tag, "@" ++ a.text⟩

def PrintedLine.wording : PrintedLine → List Word
  | .field f =>
    .named f.name.text :: .mark ':' :: f.type.wording ++ f.attributes.members.map Attribute.word
  | .timestamps => timestampsLine

def Model.wording (m : Model) : List Word :=
  [⟨.model, "model"⟩, .named m.name.text, .mark '{', .mark '\n'] ++
    (printedLines m.fields).flatMap (·.wording ++ [.mark '\n']) ++ [.mark '}', .mark '\n']

def Document.wording (d : Document) : List Word :=
  [Word.mark '\n'].intercalate (d.models.map Model.wording)

/-- Neither a name nor a tag goes on into the text. -/
def Stops (cs : List Char) : Prop := ∀ c ∈ cs.head?, isIdentifierPart c = false ∧ c ≠ '('

theorem stops_blank (cs : List Char) : Stops (' ' :: cs) := by simp [Stops]; decide

theorem stops_lineBreak (cs : List Char) : Stops ('\n' :: cs) := by simp [Stops]; decide

theorem words_fieldType {type : FieldType} (h : type.Printable) {rest : List Char}
    (stop : Stops rest) : words (type.text.toList ++ rest) = type.wording ++ words rest := by
  have after := fun c hc => (stop c hc).1
  cases type with
  | primitive p => exact words_named (isIdentifier_primitive p) after
  | other s => exact words_named h.1 after
  | belongsTo target =>
    have whole : (FieldType.belongsTo target).text.toList ++ rest =
        "belongsTo".toList ++ '(' :: (target.text.toList ++ ')' :: rest) := by
      simp [FieldType.text, toString]
    rw [whole, words_named (by decide) (by simp; decide), words_mark (by simp),
      words_named target.valid (by simp; decide), words_mark (by simp)]
    rfl

theorem words_attribute {a : Attribute} (h : a.Printable) {rest : List Char} (stop : Stops rest) :
    words ((" @" ++ a.text).toList ++ rest) = a.word :: words rest := by
  have skip (cs : List Char) : words (' ' :: cs) = words cs := words_spacing (by decide) cs
  cases a with
  | flag f =>
    have whole : (" @" ++ (Attribute.flag f).text).toList ++ rest =
        ' ' :: ('@' :: f.name.toList ++ rest) := by
      simp [Attribute.text]
    rw [whole, skip, words_tag (isIdentifier_flagName f) stop]
    rfl
  | default value =>
    obtain ⟨-, -, closing, cr, lf⟩ := h
    have inside : ∀ c ∈ value.toList, isArgument c := by
      intro c hc
      simp only [isArgument, isLineBreak, Bool.and_eq_true, bne_iff_ne, Bool.not_eq_true',
        Bool.or_eq_false_iff, beq_eq_false_iff_ne]
      exact ⟨fun e => closing (e ▸ hc), fun e => cr (e ▸ hc), fun e => lf (e ▸ hc)⟩
    have whole : (" @" ++ (Attribute.default value).text).toList ++ rest =
        ' ' :: ('@' :: "default".toList ++ '(' :: (value.toList ++ ')' :: rest)) := by
      simp [Attribute.text, toString]
    have word : (Attribute.default value).word = ⟨.tag, "@" ++ "default" ++ "(" ++ value ++ ")"⟩ := by
      simp [Attribute.word, Attribute.text, toString, ← String.toList_inj]
    rw [whole, skip, words_tagWith (by decide) inside, word]

theorem words_attributes {as : List Attribute} (h : ∀ a ∈ as, a.Printable) {rest : List Char}
    (stop : Stops rest) :
    Stops ((String.join (as.map fun a => " @" ++ a.text)).toList ++ rest) ∧
      words ((String.join (as.map fun a => " @" ++ a.text)).toList ++ rest) =
        as.map Attribute.word ++ words rest := by
  induction as with
  | nil => exact ⟨by simpa using stop, by simp⟩
  | cons a as ih =>
    obtain ⟨head, tail⟩ := List.forall_mem_cons.mp h
    obtain ⟨next, ih⟩ := ih tail
    have whole : (String.join ((a :: as).map fun a => " @" ++ a.text)).toList ++ rest =
        (" @" ++ a.text).toList ++
          ((String.join (as.map fun a => " @" ++ a.text)).toList ++ rest) := by
      simp [String.toList_join]
    rw [whole, words_attribute head next, ih]
    exact ⟨by simpa using stops_blank _, rfl⟩

theorem words_printedLine {line : PrintedLine} (h : ∀ f ∈ line.fields, f.Printable)
    (rest : List Char) :
    words (line.text.toList ++ '\n' :: rest) = line.wording ++ .mark '\n' :: words rest := by
  cases line with
  | timestamps =>
    rw [PrintedLine.text, words_named (by decide) (by simp; decide), words_mark (by simp)]
    rfl
  | field f =>
    obtain ⟨type, attributes⟩ := h f List.mem_cons_self
    obtain ⟨stop, tags⟩ := words_attributes attributes (stops_lineBreak rest)
    have whole : (PrintedLine.field f).text.toList ++ '\n' :: rest =
        f.name.text.toList ++ ':' :: ' ' :: (f.type.text.toList ++
          ((String.join (f.attributes.members.map fun a => " @" ++ a.text)).toList ++
            '\n' :: rest)) := by
      simp [PrintedLine.text, Field.text, toString]
    rw [whole, words_named f.name.valid (by simp; decide), words_mark (by simp),
      words_spacing (by decide), words_fieldType type stop, tags, words_mark (by simp)]
    simp [PrintedLine.wording]

theorem words_printedLines {lines : List PrintedLine}
    (h : ∀ l ∈ lines, ∀ f ∈ l.fields, f.Printable) (rest : List Char) :
    words ((String.join (lines.map fun l => s!"    {l.text}\n")).toList ++ rest) =
      lines.flatMap (·.wording ++ [.mark '\n']) ++ words rest := by
  induction lines with
  | nil => simp
  | cons l lines ih =>
    obtain ⟨head, tail⟩ := List.forall_mem_cons.mp h
    have skip (cs : List Char) : words (' ' :: cs) = words cs := words_spacing (by decide) cs
    have whole : (String.join ((l :: lines).map fun l => s!"    {l.text}\n")).toList ++ rest =
        ' ' :: ' ' :: ' ' :: ' ' :: (l.text.toList ++ '\n' ::
          ((String.join (lines.map fun l => s!"    {l.text}\n")).toList ++ rest)) := by
      simp [String.toList_join, toString]
    rw [whole, skip, skip, skip, skip, words_printedLine head, ih tail]
    simp

theorem words_model {m : Model} (h : m.Printable) (rest : List Char) :
    words (m.print.toList ++ rest) = m.wording ++ words rest := by
  have lines : ∀ l ∈ printedLines m.fields, ∀ f ∈ l.fields, f.Printable :=
    fun l hl f hf => h.2 f (mem_fields_of_mem_printedLines hl hf)
  have whole : m.print.toList ++ rest =
      "model".toList ++ ' ' :: (m.name.text.toList ++ ' ' :: '{' :: '\n' ::
        ((String.join ((printedLines m.fields).map fun l => s!"    {l.text}\n")).toList ++
          '}' :: '\n' :: rest)) := by
    simp [Model.print, ← map_text_printedLines, toString, Function.comp_def]
  rw [whole, words_named (by decide) (by simp; decide), words_spacing (by decide),
    words_named m.name.valid (by simp; decide), words_spacing (by decide), words_mark (by simp),
    words_mark (by simp), words_printedLines lines, words_mark (by simp), words_mark (by simp)]
  simp [Model.wording, Word.named]

theorem words_print {d : Document} (h : d.Printable) : words d.print.toList = d.wording := by
  have models (ms : List Model) (hms : ∀ m ∈ ms, m.Printable) :
      words ("\n".intercalate (ms.map Model.print)).toList =
        [Word.mark '\n'].intercalate (ms.map Model.wording) := by
    induction ms with
    | nil => simp
    | cons m ms ih =>
      obtain ⟨head, tail⟩ := List.forall_mem_cons.mp hms
      cases ms with
      | nil => simpa using words_model head []
      | cons n ms =>
        have whole : ("\n".intercalate ((m :: n :: ms).map Model.print)).toList =
            m.print.toList ++ '\n' :: ("\n".intercalate ((n :: ms).map Model.print)).toList := by
          simp
        rw [whole, words_model head, words_mark (by simp), ih tail]
        simp
  exact models d.models h

end SchemaPlan
