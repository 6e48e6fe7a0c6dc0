import SchemaPlan.Proofs.Source.Outline
import SchemaPlan.Proofs.Source.Reading
import SchemaPlan.Proofs.Source.Tag

/-!
# What lines and blocks declare

A line is read exactly if it declares fields, and then into these. The same holds of blocks and their
models.
-/

namespace SchemaPlan.Source

@[simp] theorem linesOf_nil : linesOf [] = [] := rfl

/-- The lines of a body are what stands between line breaks. -/
theorem Line.map_tokens_ofBody {α : Type} {p : α → Bool} {f : Token → α}
    (same : ∀ t, p (f t) = t.isNewline) (body : List Token) :
    (ofBody body).map (fun l => l.tokens.map f) =
      ((body.map f).splitOnP p).filter (· ≠ []) := by
  fun_induction ofBody body with
  | case1 => rfl
  | case2 t rest hk ih => rw [ih, List.map_cons, filter_splitOnP_break ((same t).trans hk)]
  | case3 t rest hk ih =>
    have whole : (t :: rest).map f =
        (t :: rest.takeWhile (!·.isNewline)).map f ++ (rest.dropWhile (!·.isNewline)).map f := by
      rw [← List.map_append, List.cons_append, List.takeWhile_append_dropWhile]
    rw [whole, filter_splitOnP_append (by simp), List.map_cons, ih]
    · rfl
    · simp only [List.map_cons, List.forall_mem_cons, List.forall_mem_map, same]
      exact ⟨by simpa using hk, fun u hu => by simpa using List.mem_takeWhile_imp hu⟩
    · intro a ha
      rw [List.head?_map] at ha
      obtain ⟨u, hu, rfl⟩ := Option.map_eq_some_iff.mp ha
      rw [same]
      simpa using head?_dropWhile rest u hu

theorem linesOf_newline {w : Word} (h : w.kind = .newline) (ws : List Word) :
    linesOf (w :: ws) = linesOf ws :=
  filter_splitOnP_break (by simp [h]) ws

theorem linesOf_append {line rest : List Word} (solid : line ≠ [])
    (unbroken : ∀ w ∈ line, w.kind ≠ .newline) (broken : ∀ w ∈ rest.head?, w.kind = .newline) :
    linesOf (line ++ rest) = line :: linesOf rest :=
  filter_splitOnP_append solid (by simpa using unbroken) (by simpa using broken)

theorem Declaration.mem_body_of_mem_lines {d : Declaration} {line : List Word}
    (h : line ∈ d.lines) : ∀ w ∈ line, w ∈ d.body :=
  fun w hw => (mem_splitOnP (List.mem_filter.mp h).1 w hw).1

/-- The tags on a line stand behind the type. -/
theorem FieldLine.tags {line rest : List Word} {name : Identifier} {type : FieldType}
    (h : FieldLine line name type rest) :
    ∃ clause, line = clause ++ rest ∧ ∀ w ∈ clause, w.kind ≠ .tag := by
  have notTag {w : Word} (h : w.kind.isName) : w.kind ≠ .tag := fun e => by
    rw [e] at h
    cases h
  cases h with
  | @plain first colon word _ _ _ hfirst _ hcolon htype =>
    refine ⟨[first, colon, word], rfl, ?_⟩
    simp [notTag hfirst, hcolon, notTag htype]
  | @relation first colon word opening target closing _ _ _ hfirst _ hcolon htype _ ho ht _ hc =>
    refine ⟨[first, colon, word, opening, target, closing], rfl, ?_⟩
    simp [notTag hfirst, hcolon, notTag htype, ho, ht, hc]

theorem FieldLine.suffix {line rest : List Word} {name : Identifier} {type : FieldType}
    (h : FieldLine line name type rest) : rest <:+ line := by
  obtain ⟨clause, rfl, -⟩ := h.tags
  exact List.suffix_append clause rest

namespace Line

def words (l : Line) : List Word := l.tokens.map Token.word

theorem words_eq (l : Line) : l.words = l.first.word :: l.rest.map Token.word := rfl

/-- The lines of tokens are the lines of their words. -/
theorem map_words_ofBody (body : List Token) :
    (ofBody body).map words = linesOf (body.map Token.word) :=
  map_tokens_ofBody (f := Token.word) (fun _ => rfl) body

theorem fieldName_named_iff {t : Token} {name : Identifier} :
    t.named fieldName = .ok name ↔ t.text = name.text := by
  rw [Token.named, mapError_eq_ok_iff, fieldName_eq_ok_iff, eq_comm]

theorem modelName_named_iff {t : Token} {name : Identifier} :
    t.named modelName = .ok name ↔ t.text = name.text := by
  rw [Token.named, mapError_eq_ok_iff, modelName_eq_ok_iff, eq_comm]

/-- A type clause that is read makes a field line with the name and the colon before it. -/
theorem fieldLine_of_typeClause {l : Line} {source : String} {model name : Identifier}
    {first colon type : Token} {rest rest' : List Token} {fieldType : FieldType}
    (kinds : first.kind.isName ∧ colon.kind = .colon ∧ type.kind.isName)
    (named : first.text = name.text)
    (h : l.typeClause source model type rest = .ok (fieldType, rest')) :
    FieldLine ((first :: colon :: type :: rest).map Token.word) name fieldType
      (rest'.map Token.word) := by
  unfold typeClause at h
  split at h
  · next relation =>
    simp only at h
    split at h
    · next opening target closing rest =>
      split at h
      · next parens =>
        obtain ⟨targetName, targetNamed, h⟩ := bind_eq_ok_iff.mp h
        cases h
        exact .relation kinds.1 named kinds.2.1 kinds.2.2 relation parens.1 parens.2.1
          (modelName_named_iff.mp targetNamed) parens.2.2
      · cases h
    · cases h
  · next plain =>
    cases h
    exact .plain kinds.1 named kinds.2.1 kinds.2.2 plain (FieldType.ofName_eq_iff.mp rfl)

theorem suffix_of_typeClause {l : Line} {source : String} {model : Identifier} {word : Token}
    {rest rest' : List Token} {type : FieldType}
    (h : l.typeClause source model word rest = .ok (type, rest')) : rest' <:+ rest := by
  unfold typeClause at h
  split at h
  · dsimp only at h
    split at h
    · next opening target closing rest =>
      split at h
      · obtain ⟨_, -, h⟩ := bind_eq_ok_iff.mp h
        cases h
        exact ⟨[opening, target, closing], rfl⟩
      · cases h
    · cases h
  · cases h
    exact List.suffix_refl rest

theorem typeClause_of_fieldLine (l : Line) (source : String) (model : Identifier)
    {name : Identifier} {fieldType : FieldType} {ts : List Token} {rest : List Word}
    (h : FieldLine (ts.map Token.word) name fieldType rest) :
    ∃ first colon type after rest', ts = first :: colon :: type :: after ∧
      (first.kind.isName ∧ colon.kind = .colon ∧ type.kind.isName) ∧ first.text = name.text ∧
      l.typeClause source model type after = .ok (fieldType, rest') ∧
      rest'.map Token.word = rest := by
  generalize hws : ts.map Token.word = ws at h
  cases h with
  | plain hfirst named hcolon htype plain typeNamed =>
    simp only [List.map_eq_cons_iff] at hws
    obtain ⟨first, _, rfl, rfl, colon, _, rfl, rfl, type, after, rfl, rfl, rfl⟩ := hws
    refine ⟨first, colon, type, after, after, rfl, ⟨hfirst, hcolon, htype⟩, named, ?_, rfl⟩
    obtain rfl := FieldType.ofName_eq_iff.mpr typeNamed
    exact if_neg plain
  | relation hfirst named hcolon htype relation hopening htarget targetNamed hclosing =>
    simp only [List.map_eq_cons_iff] at hws
    obtain ⟨first, _, rfl, rfl, colon, _, rfl, rfl, type, _, rfl, rfl, opening, _, rfl, rfl,
      target, _, rfl, rfl, closing, after, rfl, rfl, rfl⟩ := hws
    refine ⟨first, colon, type, _, after, rfl, ⟨hfirst, hcolon, htype⟩, named, ?_, rfl⟩
    simp only [Token.word_text, Token.word_kind] at relation hopening htarget hclosing
    rw [typeClause, if_pos relation]
    simp only
    rw [if_pos ⟨hopening, htarget, hclosing⟩]
    exact bind_eq_ok_iff.mpr ⟨_, modelName_named_iff.mpr targetNamed, rfl⟩

theorem read_of_timestampsLine {l : Line} {source : String} {model : Identifier}
    (h : l.words = timestampsLine) : l.read source model = .ok (timestampFields, []) := by
  rcases l with ⟨first, rest⟩
  rw [words_eq, timestampsLine, List.cons.injEq, List.map_eq_nil_iff] at h
  obtain ⟨word, rfl⟩ := h
  obtain ⟨kind, text⟩ := Word.mk.inj word
  simp only at kind text
  simp [read, Token.isWord, kind, text]

/-- A field line is read if its tags are applied. -/
theorem read_of_fieldLine {l : Line} (source : String) (model : Identifier) {name : Identifier}
    {type : FieldType} {rest : List Word} (h : FieldLine l.words name type rest) :
    ∃ tags, tags.map Token.word = rest ∧ tags <:+ l.tokens ∧ ∀ set ws,
      Site.applyTags ⟨model.text, name.text⟩ ∅ tags = .ok (set, ws) →
        l.read source model = .ok ([⟨name, type, set⟩], ws) := by
  obtain ⟨first, colon, word, after, tags, whole, kinds, named, clause, htags⟩ :=
    typeClause_of_fieldLine l source model h
  rcases l with ⟨head, tail⟩
  cases whole
  have suffix : tags <:+ Line.tokens ⟨head, colon :: word :: after⟩ :=
    (suffix_of_typeClause clause).trans ⟨[head, colon, word], rfl⟩
  refine ⟨tags, htags, suffix, fun set ws applied => ?_⟩
  simp only [read, if_pos kinds]
  refine bind_eq_ok_iff.mpr ⟨(⟨name, type, set⟩, ws), ?_, rfl⟩
  refine bind_eq_ok_iff.mpr ⟨name, fieldName_named_iff.mpr named, ?_⟩
  refine bind_eq_ok_iff.mpr ⟨(type, tags), clause, ?_⟩
  exact bind_eq_ok_iff.mpr ⟨(set, ws), applied, rfl⟩

/-- A line is read if it stands for the timestamps, or if it is the line of a field and the tags after
the type are applied. -/
theorem read_eq_ok_iff {l : Line} {source : String} {model : Identifier} {fields : List Field}
    {ws : List Warning} :
    l.read source model = .ok (fields, ws) ↔
      (l.words = timestampsLine ∧ fields = timestampFields ∧ ws = []) ∨
        ∃ name type after set, after <:+ l.tokens ∧
          FieldLine l.words name type (after.map Token.word) ∧
          Site.applyTags ⟨model.text, name.text⟩ ∅ after = .ok (set, ws) ∧
          fields = [⟨name, type, set⟩] := by
  constructor
  · intro h
    unfold read at h
    split at h
    · next lone =>
      split at h
      · next word =>
        cases h
        simp only [Token.isWord, Bool.and_eq_true, beq_iff_eq] at word
        exact .inl ⟨by simp [words_eq, lone, timestampsLine, Token.word, word], rfl, rfl⟩
      · cases h
    · next colon type rest hrest =>
      split at h
      · next kinds =>
        obtain ⟨⟨field, warnings⟩, read, h⟩ := bind_eq_ok_iff.mp h
        cases h
        obtain ⟨name, named, read⟩ := bind_eq_ok_iff.mp read
        obtain ⟨⟨fieldType, after⟩, clause, read⟩ := bind_eq_ok_iff.mp read
        obtain ⟨⟨set, _⟩, applied, read⟩ := bind_eq_ok_iff.mp read
        cases read
        have line := fieldLine_of_typeClause kinds (fieldName_named_iff.mp named) clause
        rw [← hrest] at line
        refine .inr ⟨name, fieldType, after, set, ?_, line, applied, rfl⟩
        rw [tokens, hrest]
        exact (suffix_of_typeClause clause).trans ⟨[l.first, colon, type], rfl⟩
      · cases h
    · cases h
  · rintro (⟨stamps, rfl, rfl⟩ | ⟨name, type, after, set, suffix, line, applied, rfl⟩)
    · exact read_of_timestampsLine stamps
    · obtain ⟨tags, same, suffix', read⟩ := read_of_fieldLine source model line
      obtain rfl : tags = after := by
        have length := congrArg List.length same
        simp only [List.length_map] at length
        exact (List.suffix_of_suffix_length_le suffix' suffix length.le).eq_of_length length
      exact read set ws applied

theorem exists_applyTags_iff_tagged {site : Site} {ts : List Token} {set : AttributeSet}
    (spelt : ∀ w ∈ ts.map Token.word, w.Spelt) :
    (∃ ws, site.applyTags ∅ ts = .ok (set, ws)) ↔
      ∃ as, Tagged (ts.map Token.word) as ∧ Attribute.OneDefault as ∧
        set.members = Attribute.firsts as := by
  have tagged {as : List Attribute} : Tagged (ts.map Token.word) as ↔
      (ts.map Token.word).filterMap Word.attribute? = as :=
    tagged_iff fun w hw => (spelt w hw).tag
  rw [Site.exists_applyTags_iff]
  constructor
  · intro h
    exact ⟨_, tagged.mpr rfl, AttributeSet.ofList_eq_ok_iff.mp h⟩
  · rintro ⟨as, h, kept⟩
    obtain rfl := tagged.mp h
    exact AttributeSet.ofList_eq_ok_iff.mpr kept

/-- A line is read exactly if it declares fields. -/
theorem exists_read_iff {l : Line} {source : String} {model : Identifier} {fields : List Field}
    (spelt : ∀ w ∈ l.words, w.Spelt) :
    (∃ ws, l.read source model = .ok (fields, ws)) ↔ LineDeclares l.words fields := by
  constructor
  · rintro ⟨ws, h⟩
    rcases read_eq_ok_iff.mp h with
      ⟨stamps, rfl, -⟩ | ⟨name, type, after, set, suffix, line, applied, rfl⟩
    · exact stamps ▸ .timestamps
    · have inside : ∀ w ∈ after.map Token.word, w.Spelt :=
        fun w hw => spelt w (line.suffix.mem hw)
      obtain ⟨as, tagged, one, members⟩ :=
        (exists_applyTags_iff_tagged inside).mp ⟨_, applied⟩
      exact .field line tagged one members
  · intro h
    generalize hws : l.words = ws at h
    cases h with
    | timestamps => exact ⟨[], read_of_timestampsLine hws⟩
    | @field _ rest name type as set line tagged one members =>
      subst hws
      obtain ⟨tags, rfl, -, read⟩ := read_of_fieldLine source model line
      have inside : ∀ w ∈ tags.map Token.word, w.Spelt :=
        fun w hw => spelt w (line.suffix.mem hw)
      obtain ⟨ws, applied⟩ :=
        (exists_applyTags_iff_tagged inside).mpr ⟨as, tagged, one, members⟩
      exact ⟨ws, read set ws applied⟩

end Line

namespace Block

theorem lines_declaration (b : Block) :
    b.declaration.lines = (Line.ofBody b.body).map Line.words :=
  (Line.map_words_ofBody b.body).symm

/-- A block is read exactly if it declares a model. -/
theorem exists_read_iff {b : Block} {source : String} {m : Model}
    (spelt : ∀ w ∈ b.declaration.body, w.Spelt) :
    (∃ ws, b.read source = .ok (m, ws)) ↔ b.declaration.Declares m := by
  have lineSpelt : ∀ l ∈ Line.ofBody b.body, ∀ w ∈ l.words, w.Spelt := by
    intro l hl w hw
    refine spelt w (Declaration.mem_body_of_mem_lines ?_ w hw)
    exact lines_declaration b ▸ List.mem_map_of_mem hl
  have lines (fields : List (List Field)) :
      List.Forall₂ LineDeclares b.declaration.lines fields ↔
        ∃ results, List.Forall₂ (fun l r => l.read source m.name = .ok r) (Line.ofBody b.body)
          results ∧ results.map Prod.fst = fields := by
    rw [lines_declaration, List.forall₂_map_left_iff, ← forall₂_exists_iff]
    exact forall₂_congr_of_mem fun l hl fields => (Line.exists_read_iff (lineSpelt l hl)).symm
  simp only [read_eq_ok_iff, exists_and_left, Declaration.Declares,
    Line.readAll_eq_ok_iff [] List.nodup_nil]
  refine and_congr_right fun _ => ?_
  constructor
  · rintro ⟨ws, results, reads, fields, -, -⟩
    exact ⟨results.map Prod.fst, (lines _).mpr ⟨results, reads, rfl⟩, fields⟩
  · rintro ⟨fields, declared, whole⟩
    obtain ⟨results, reads, rfl⟩ := (lines fields).mp declared
    exact ⟨_, results, reads, whole, m.distinct, rfl⟩

end Block

end SchemaPlan.Source
