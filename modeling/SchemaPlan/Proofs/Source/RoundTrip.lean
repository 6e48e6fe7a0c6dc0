import SchemaPlan.Proofs.Source.Acceptance
import SchemaPlan.Proofs.Source.Wording

/-!
# Printing and reading

A printable document is read back from its print as it was, without a warning, and what is read from
any text is printable.
-/

namespace SchemaPlan

open Source

def Model.printed (m : Model) : Declaration where
  name := .named m.name.text
  body := .mark '\n' :: (printedLines m.fields).flatMap (·.wording ++ [.mark '\n'])

/-- The words of a printed line are names, marks and attributes. -/
theorem PrintedLine.forms {l : PrintedLine} {w : Word} (h : w ∈ l.wording) :
    w.kind.isName ∨ w.kind ∈ [.colon, .openParen, .closeParen] ∨ ∃ a : Attribute, w = a.word := by
  cases l with
  | timestamps =>
    obtain rfl := List.mem_singleton.mp h
    exact .inl rfl
  | field f =>
    simp only [wording, List.cons_append, List.mem_cons, List.mem_append, List.mem_map] at h
    rcases h with rfl | rfl | type | ⟨a, -, rfl⟩
    · exact .inl (Word.isName_named _)
    · exact .inr (.inl (by decide))
    · generalize f.type = type' at type
      cases type' with
      | primitive p =>
        obtain rfl := List.mem_singleton.mp type
        exact .inl (Word.isName_named _)
      | other s =>
        obtain rfl := List.mem_singleton.mp type
        exact .inl (Word.isName_named _)
      | belongsTo target =>
        simp only [FieldType.wording, List.mem_cons, List.not_mem_nil, or_false] at type
        rcases type with rfl | rfl | rfl | rfl
        · exact .inl (Word.isName_named _)
        · exact .inr (.inl (by decide))
        · exact .inl (Word.isName_named _)
        · exact .inr (.inl (by decide))
    · exact .inr (.inr ⟨a, rfl⟩)

/-- No word of a printed line breaks the line or is a brace. -/
theorem PrintedLine.kind_of_mem_wording {l : PrintedLine} {w : Word} (h : w ∈ l.wording) :
    w.kind ≠ .newline ∧ w.kind ≠ .openBrace ∧ w.kind ≠ .closeBrace := by
  rcases l.forms h with name | mark | ⟨a, rfl⟩
  · cases hk : w.kind <;> simp_all [TokenKind.isName]
  · cases hk : w.kind <;> simp_all
  · simp [Attribute.word]

theorem PrintedLine.wording_ne_nil (l : PrintedLine) : l.wording ≠ [] := by
  cases l <;> simp [wording, timestampsLine]

theorem linesOf_flatMap (ls : List PrintedLine) :
    linesOf (ls.flatMap (·.wording ++ [.mark '\n'])) = ls.map PrintedLine.wording := by
  induction ls with
  | nil => rfl
  | cons l ls ih =>
    rw [List.flatMap_cons, List.append_assoc, List.singleton_append,
      linesOf_append l.wording_ne_nil (fun w hw => (l.kind_of_mem_wording hw).1) (by simp; rfl),
      linesOf_newline rfl, ih, List.map_cons]

theorem Model.lines_printed (m : Model) :
    m.printed.lines = (printedLines m.fields).map PrintedLine.wording := by
  rw [Declaration.lines, printed, linesOf_newline rfl, linesOf_flatMap]

namespace Source

theorem balanced_of_plain {ws : List Word}
    (h : ∀ w ∈ ws, w.kind ≠ .openBrace ∧ w.kind ≠ .closeBrace) : Balanced ws := by
  induction ws with
  | nil => exact .nil
  | cons w ws ih =>
    obtain ⟨head, tail⟩ := List.forall_mem_cons.mp h
    exact .plain head.1 head.2 (ih tail)

theorem Outlined.newline {w : Word} {ws : List Word} {ds : List Declaration}
    (hw : w.kind = .newline) (h : Outlined ws ds) : Outlined (w :: ws) ds := by
  refine .skip (fun name inside opens => ?_) h
  generalize hws : w :: ws = ws' at opens
  obtain ⟨hk, -, -, -, -⟩ := opens
  cases hws
  rw [hw] at hk
  cases hk

end Source

theorem Model.outlined_wording {m : Model} (h : m.name.text ≠ "model") {ws : List Word}
    {ds : List Declaration} (rest : Outlined ws ds) :
    Outlined (m.wording ++ ws) (m.printed :: ds) := by
  have whole : m.wording ++ ws = [⟨.model, "model"⟩] ++ .named m.name.text :: [] ++
      .mark '{' :: (m.printed.body ++ .mark '}' :: .mark '\n' :: ws) := by
    simp [wording, printed]
  have opens : Opens (m.wording ++ ws) (.named m.name.text)
      (m.printed.body ++ .mark '}' :: .mark '\n' :: ws) := by
    rw [whole]
    exact .intro rfl (by simp) (Word.named_kind h) (by simp) rfl
  have balanced : Balanced m.printed.body := by
    apply balanced_of_plain
    intro w hw
    rcases List.mem_cons.mp hw with rfl | hw
    · decide
    · obtain ⟨l, -, hw⟩ := List.mem_flatMap.mp hw
      rcases List.mem_append.mp hw with hw | hw
      · exact (l.kind_of_mem_wording hw).2
      · obtain rfl := List.mem_singleton.mp hw
        decide
  exact .block opens balanced rfl (.newline rfl rest)

theorem Document.outlined_wording {d : Document} (h : d.Printable) :
    Outlined d.wording (d.models.map Model.printed) := by
  have models (ms : List Model) (hms : ∀ m ∈ ms, m.Printable) :
      Outlined ([Word.mark '\n'].intercalate (ms.map Model.wording)) (ms.map Model.printed) := by
    induction ms with
    | nil => exact .nil
    | cons m ms ih =>
      obtain ⟨head, tail⟩ := List.forall_mem_cons.mp hms
      cases ms with
      | nil => simpa using Model.outlined_wording head.1 .nil
      | cons n ms => simpa using Model.outlined_wording head.1 (.newline rfl (ih tail))
  exact models d.models h

theorem Attribute.ofText_text {a : Attribute} (h : a.Printable) :
    Tag.ofText ("@" ++ a.text) =
      ⟨a.name, match a with | .flag _ => none | .default value => some value⟩ := by
  cases a with
  | flag f =>
    rw [Tag.ofText_bare (isIdentifier_flagName f) (by simp [text]), String.ofList_toList]
    rfl
  | default value =>
    rw [Tag.ofText_closed "default".toList value.toList (by decide) h.2.2.1
      (by simp [text, toString]), String.ofList_toList, String.ofList_toList, Text.trim_eq_self_iff.mpr h.2.1]
    rfl

namespace Source

/-- A printed attribute of a new kind is added, and nothing is reported. -/
theorem Site.applyTag_word {site : Site} {t : Token} {a : Attribute} {set : AttributeSet}
    (h : a.Printable) (ht : t.text = "@" ++ a.text) (fresh : ¬ set.HasKind a.kind) :
    site.applyTag t set = .ok (set.insert a, []) := by
  rw [applyTag, ht, Attribute.ofText_text h]
  cases a with
  | flag f =>
    have fresh : ¬ set.HasKind (.flag f) := fresh
    simp [Attribute.name, applyFlag, fresh]
  | default value =>
    have fresh : ¬ set.HasKind .default := fresh
    simp only [Attribute.name, if_true]
    rw [applyDefault, if_neg fresh]
    exact h.1

theorem Site.applyTags_words (site : Site) {ts : List Token} {as : List Attribute}
    (set : AttributeSet) (h : ∀ a ∈ as, a.Printable)
    (hts : ts.map Token.word = as.map Attribute.word)
    (distinct : ((set.members ++ as).map Attribute.kind).Nodup) :
    ∃ set' : AttributeSet, set'.members = set.members ++ as ∧
      site.applyTags set ts = .ok (set', []) := by
  induction as generalizing ts set with
  | nil =>
    obtain rfl := List.map_eq_nil_iff.mp hts
    exact ⟨set, by simp, rfl⟩
  | cons a as ih =>
    obtain ⟨head, tail⟩ := List.forall_mem_cons.mp h
    obtain ⟨t, ts, rfl, word, rest⟩ := List.map_eq_cons_iff.mp hts
    obtain ⟨kind, text⟩ := Word.mk.inj word
    have fresh : ¬ set.HasKind a.kind := by
      rw [List.map_append, List.nodup_append] at distinct
      intro known
      exact distinct.2.2 a.kind known a.kind (by simp) rfl
    have members := AttributeSet.members_insert_of_not_hasKind fresh
    obtain ⟨set', members', applied⟩ := ih (set.insert a) tail rest (by
      rwa [members, List.append_assoc])
    refine ⟨set', by rw [members', members, List.append_assoc]; rfl, ?_⟩
    rw [applyTags, if_pos kind]
    refine bind_eq_ok_iff.mpr ⟨_, applyTag_word head text fresh, ?_⟩
    exact bind_eq_ok_iff.mpr ⟨_, applied, rfl⟩

theorem fieldLine_wording {name : Identifier} {type : FieldType} (h : type.Printable)
    (tags : List Word) :
    FieldLine (.named name.text :: .mark ':' :: type.wording ++ tags) name type tags := by
  have named : (Word.named name.text).kind.isName := Word.isName_named _
  cases type with
  | primitive p =>
    have plain : p.name ≠ "belongsTo" := by cases p <;> decide
    exact .plain named rfl rfl (Word.isName_named p.name) plain (.primitive p)
  | other s =>
    obtain ⟨-, plain, unknown⟩ := h
    exact .plain named rfl rfl (Word.isName_named s) plain
      (.other (Primitive.ofName?_eq_none_iff.mp unknown))
  | belongsTo target =>
    exact .relation named rfl rfl (Word.isName_named _) rfl rfl (Word.named_kind h) rfl rfl

theorem Line.read_wording {l : Line} {source : String} {model : Identifier} {line : PrintedLine}
    (h : ∀ f ∈ line.fields, f.Printable) (hl : l.words = line.wording) :
    l.read source model = .ok (line.fields, []) := by
  cases line with
  | timestamps => exact read_of_timestampsLine hl
  | field f =>
    obtain ⟨type, attributes⟩ := h f List.mem_cons_self
    have line : FieldLine l.words f.name f.type (f.attributes.members.map Attribute.word) :=
      hl ▸ fieldLine_wording type _
    obtain ⟨tags, htags, -, read⟩ := Line.read_of_fieldLine source model line
    obtain ⟨set, members, applied⟩ := Site.applyTags_words ⟨model.text, f.name.text⟩ ∅ attributes
      htags f.attributes.distinct
    obtain rfl : set = f.attributes := AttributeSet.ext members
    exact read _ _ applied

theorem Block.read_printed {b : Block} {source : String} {m : Model} (h : m.Printable)
    (hb : b.declaration = m.printed) : b.read source = .ok (m, []) := by
  have words : (Line.ofBody b.body).map Line.words =
      (printedLines m.fields).map PrintedLine.wording := by
    rw [← Block.lines_declaration, hb, m.lines_printed]
  have lines : List.Forall₂ (fun l r => Line.read l source m.name = .ok r) (Line.ofBody b.body)
      ((printedLines m.fields).map fun line => (line.fields, [])) := by
    refine List.forall₂_map_right_iff.mpr (forall₂_of_map_eq words fun l _ line hline same => ?_)
    exact Line.read_wording (fun f hf => h.2 f (mem_fields_of_mem_printedLines hline hf)) same
  refine read_eq_ok_iff.mpr ⟨(congrArg (·.name.text) hb).symm, ?_⟩
  refine (Line.readAll_eq_ok_iff [] List.nodup_nil).mpr
    ⟨_, lines, ?_, m.distinct, ?_⟩
  · rw [List.flatMap_map, List.nil_append]
    exact (flatMap_fields_printedLines m.fields).symm
  · simp [List.flatMap_map]

end Source

theorem Attribute.not_isCut_word (a : Attribute) : ¬ a.word.IsCut := by
  rintro ⟨-, opening, last⟩
  cases a with
  | flag f => cases f <;> simp [word, text, Flag.name] at opening
  | default value =>
    have whole : (Attribute.default value).word.text.toList =
        ('@' :: "default(".toList ++ value.toList) ++ [')'] := by
      simp [word, text, toString]
    rw [whole, List.getLast?_concat] at last
    exact last rfl

theorem PrintedLine.not_isCut {l : PrintedLine} {w : Word} (h : w ∈ l.wording) : ¬ w.IsCut := by
  rcases l.forms h with name | mark | ⟨a, rfl⟩
  · rintro ⟨tag, -⟩
    rw [tag] at name
    cases name
  · rintro ⟨tag, -⟩
    rw [tag] at mark
    simp at mark
  · exact a.not_isCut_word

theorem Model.not_isCut {m : Model} : ∀ w ∈ m.wording, ¬ w.IsCut := by
  have other {w : Word} (h : w.kind ≠ .tag) : ¬ w.IsCut := fun cut => h cut.1
  intro w hw
  simp only [wording, List.cons_append, List.nil_append, List.mem_cons, List.mem_append,
    List.mem_flatMap, List.not_mem_nil, or_false] at hw
  rcases hw with rfl | rfl | rfl | rfl | ⟨l, -, hw | rfl⟩ | rfl | rfl
  · exact other (by decide)
  · exact other (by unfold Word.named; split <;> simp)
  · exact other (by decide)
  · exact other (by decide)
  · exact l.not_isCut hw
  · exact other (by decide)
  · exact other (by decide)
  · exact other (by decide)

theorem Document.not_isCut (d : Document) : ∀ w ∈ d.wording, ¬ w.IsCut := by
  have models (ms : List Model) :
      ∀ w ∈ [Word.mark '\n'].intercalate (ms.map Model.wording), ¬ w.IsCut := by
    induction ms with
    | nil => simp
    | cons m ms ih =>
      cases ms with
      | nil => simpa using m.not_isCut
      | cons n ms =>
        intro w hw
        simp only [List.map_cons, List.intercalate_cons_cons, List.mem_append,
          List.mem_singleton] at hw
        rcases hw with (hw | rfl) | hw
        · exact m.not_isCut w hw
        · intro cut
          exact absurd cut.1 (by decide)
        · exact ih w hw
  exact models d.models

/-- A printable document is read back from its print, and nothing is reported. -/
theorem parse_print {d : Document} (h : d.Printable) : parse d.print = .ok ⟨d, []⟩ := by
  have cut := words_print h
  obtain ⟨tokens, tokenized⟩ := Token.exists_tokenize (cut ▸ d.not_isCut)
  have outlined := d.outlined_wording h
  rw [← cut, ← Token.map_word_of_tokenize tokenized] at outlined
  obtain ⟨closed, blocks⟩ := ofTokens_of_outlined outlined
  refine parse_eq_ok_iff.mpr ⟨tokens, tokenized, closed, ?_⟩
  have reads : List.Forall₂ (fun b r => Block.read b d.print = .ok r)
      (Outline.ofTokens tokens).blocks (d.models.map fun m => (m, [])) := by
    refine List.forall₂_map_right_iff.mpr (forall₂_of_map_eq blocks fun b _ m hm same => ?_)
    exact Block.read_printed (h m hm) same
  refine Block.readAll_eq_ok_iff.mpr ⟨_, reads, ?_, by simp [List.flatMap_map]⟩
  rw [List.map_map]
  exact (List.map_id _).symm

theorem Source.Means.printable {s : String} {a : Attribute} (h : Means s a)
    (unbroken : ∀ c ∈ s.toList, ¬ isLineBreak c) : a.Printable := by
  cases h with
  | flag f => trivial
  | flagWith f _ => trivial
  | @default arguments closing solid =>
    have inner {c : Char} (hc : c ∈ (Text.trim arguments).toList) : c ∈ arguments.toList :=
      Text.mem_of_mem_trim hc
    have line {c : Char} (hc : c ∈ (Text.trim arguments).toList) : ¬ isLineBreak c :=
      unbroken c (by simp [inner hc])
    refine ⟨fun blank => ?_, Text.trimmed_trim _, fun h => closing (inner h), fun h => ?_, fun h => ?_⟩
    · obtain ⟨c, hc, notBlank⟩ := solid
      exact notBlank (Text.trim_eq_empty_iff.mp blank c hc)
    · exact line h (by decide)
    · exact line h (by decide)

theorem FieldType.NamedBy.printable {type : FieldType} {word : String} (h : type.NamedBy word)
    (identifier : isIdentifier word.toList) (plain : word ≠ "belongsTo") : type.Printable := by
  cases h with
  | primitive p => trivial
  | other unknown => exact ⟨identifier, plain, Primitive.ofName?_eq_none_iff.mpr unknown⟩

theorem Source.FieldLine.printable {line rest : List Word} {name : Identifier} {type : FieldType}
    (h : FieldLine line name type rest) (spelt : ∀ w ∈ line, w.Spelt) : type.Printable := by
  cases h with
  | @plain _ _ word _ _ _ _ _ _ htype plain typeNamed =>
    exact typeNamed.printable ((spelt word (by simp)).name htype) plain
  | @relation _ _ _ _ target _ _ _ targetName _ _ _ _ _ _ htarget same _ =>
    have := (spelt target (by simp)).identifier htarget
    rwa [same] at this

theorem Source.LineDeclares.printable {line : List Word} {fields : List Field}
    (h : LineDeclares line fields) (spelt : ∀ w ∈ line, w.Spelt) : ∀ f ∈ fields, f.Printable := by
  cases h with
  | timestamps =>
    have pair (name : Identifier) : (timestampField name).Printable :=
      ⟨trivial, List.forall_mem_singleton.mpr trivial⟩
    exact List.forall_mem_cons.mpr ⟨pair _, List.forall_mem_singleton.mpr (pair _)⟩
  | field line tagged one members =>
    refine List.forall_mem_singleton.mpr ⟨line.printable spelt, fun a ha => ?_⟩
    obtain ⟨w, hw, kind, means⟩ := tagged.exists_mem (Attribute.mem_of_mem_firsts (members ▸ ha))
    exact means.printable ((spelt w (line.suffix.mem hw)).tag kind).unbroken

theorem printable_of_parse {source : String} {r : Declared} (h : parse source = .ok r) :
    r.document.Printable := by
  obtain ⟨uncut, ds, outlined, declared⟩ := exists_parse_iff.mp ⟨r.warnings, h⟩
  have spelt : ∀ w ∈ words source.toList, w.Spelt := fun w hw => spelt_of_mem_words hw (uncut w hw)
  refine forall_mem_of_forall₂ declared ?_ outlined.mem_words
  rintro d m ⟨name, fields, lines, whole⟩ ⟨kind, nameMem, bodyMem⟩
  refine ⟨name ▸ (spelt _ nameMem).identifier kind, fun f hf => ?_⟩
  rw [whole] at hf
  obtain ⟨group, hgroup, hf⟩ := List.mem_flatten.mp hf
  have inside : ∀ line ∈ d.lines, ∀ w ∈ line, w.Spelt := fun line hline w hw =>
    spelt w (bodyMem w (Declaration.mem_body_of_mem_lines hline w hw))
  exact forall_mem_of_forall₂ lines (fun _ _ declares spelt => declares.printable spelt) inside
    group hgroup f hf

/-- Printing and reading: the documents that are read from texts are the printable ones, each from its
own print. -/
theorem parse_print_iff_printable :
    (∀ source r, parse source = .ok r → r.document.Printable) ∧
      (∀ d : Document, d.Printable → parse d.print = .ok ⟨d, []⟩) ∧
      (∀ d : Document,
        (∃ r, parse d.print = .ok r ∧ (r.document == d) = true) ↔ d.Printable) ∧
      ∀ source r, parse source = .ok r →
        ∃ r', parse r.document.print = .ok r' ∧ r'.document.print = r.document.print := by
  refine ⟨fun _ _ => printable_of_parse, fun _ => parse_print, fun d => ⟨?_, fun h => ?_⟩, ?_⟩
  · rintro ⟨r, read, same⟩
    exact (printable_of_parse read).of_beq same
  · exact ⟨_, parse_print h, d.beq_refl⟩
  · intro source r h
    exact ⟨_, parse_print (printable_of_parse h), rfl⟩

end SchemaPlan
