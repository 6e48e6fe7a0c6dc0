import SchemaPlan.Proofs.Source.Declaration
import SchemaPlan.Proofs.Source.Relocation

/-!
# What errors tell of

Once a text is cut into tokens, an error is about a line of a block, about the name of a block, or
about a block that stays open. Names never fail: what names something is spelt as an identifier.
-/

namespace SchemaPlan.Source

theorem Token.exists_named {t : Token} (spelt : t.word.Spelt) (name : t.kind.isName) :
    (∃ a, t.named fieldName = .ok a) ∧ ∃ a, t.named modelName = .ok a := by
  have valid : isIdentifier t.text.toList := spelt.name name
  exact ⟨⟨⟨t.text, valid⟩, Line.fieldName_named_iff.mpr rfl⟩,
    ⟨⟨t.text, valid⟩, Line.modelName_named_iff.mpr rfl⟩⟩

namespace Site

variable {site : Site} {set : AttributeSet}

theorem duplicateDefault_of_applyTag {t : Token} {e : Error} (h : site.applyTag t set = .error e) :
    e = .duplicateDefault site.model site.field t.line t.span := by
  unfold applyTag at h
  dsimp only at h
  split at h
  · unfold applyDefault at h
    split at h
    · cases h
    · cases h
    · split at h
      · cases h
        rfl
      · cases h
  · split at h <;> cases h

theorem duplicateDefault_of_applyTags {ts : List Token} {e : Error}
    (h : site.applyTags set ts = .error e) :
    ∃ t ∈ ts, e = .duplicateDefault site.model site.field t.line t.span := by
  induction ts generalizing set with
  | nil => cases h
  | cons t ts ih =>
    have later {set : AttributeSet} (h : site.applyTags set ts = .error e) :
        ∃ u ∈ t :: ts, e = .duplicateDefault site.model site.field u.line u.span := by
      obtain ⟨u, hu, he⟩ := ih h
      exact ⟨u, List.mem_cons_of_mem t hu, he⟩
    unfold applyTags at h
    split at h
    · rcases bind_eq_error_iff.mp h with h | ⟨⟨next, first⟩, -, h⟩
      · exact ⟨t, List.mem_cons_self, duplicateDefault_of_applyTag h⟩
      rcases bind_eq_error_iff.mp h with h | ⟨_, -, h⟩
      · exact later h
      · cases h
    · exact later h

end Site

/-- What an error can say of a line. -/
inductive Line.Fault (source : String) (l : Line) : Error → Prop
  | line {model} : Fault source l (.malformedLine model l.first.line (l.span.slice source) l.span)
  | field {model reason} :
      Fault source l (.malformedField model l.first.line (l.span.slice source) reason l.span)
  | name {model field} : Fault source l (.duplicateField model field l.first.line l.span)
  | default {t model field} : t ∈ l.tokens →
      Fault source l (.duplicateDefault model field t.line t.span)

namespace Line

variable {l : Line} {source : String} {model : Identifier}

theorem fault_of_typeClause {word : Token} {rest : List Token} {e : Error}
    (spelt : ∀ t ∈ rest, t.word.Spelt) (h : l.typeClause source model word rest = .error e) :
    l.Fault source e := by
  unfold typeClause at h
  split at h
  · dsimp only at h
    split at h
    · next opening target closing rest =>
      split at h
      · next kinds =>
        obtain ⟨-, name, named⟩ :=
          Token.exists_named (spelt target (by simp)) (by rw [kinds.2.1]; rfl)
        rw [named] at h
        cases h
      · cases h
        exact .field
    · cases h
      exact .field
  · cases h

theorem fault_of_read {e : Error} (spelt : ∀ t ∈ l.tokens, t.word.Spelt)
    (h : l.read source model = .error e) : l.Fault source e := by
  unfold read at h
  split at h
  · split at h
    · cases h
    · cases h
      exact .line
  · next colon word rest hrest =>
    have mem {t : Token} (ht : t ∈ rest) : t ∈ l.tokens := by simp [tokens, hrest, ht]
    split at h
    · next kinds =>
      rcases bind_eq_error_iff.mp h with h | ⟨_, -, h⟩
      · obtain ⟨⟨field, named⟩, -⟩ := Token.exists_named (spelt l.first List.mem_cons_self) kinds.1
        rcases bind_eq_error_iff.mp h with h | ⟨name, -, h⟩
        · rw [named] at h
          cases h
        rcases bind_eq_error_iff.mp h with h | ⟨⟨type, tags⟩, clause, h⟩
        · exact fault_of_typeClause (fun t ht => spelt t (mem ht)) h
        rcases bind_eq_error_iff.mp h with h | ⟨_, -, h⟩
        · obtain ⟨t, ht, rfl⟩ := Site.duplicateDefault_of_applyTags h
          exact .default (mem ((suffix_of_typeClause clause).mem ht))
        · cases h
      · cases h
    · cases h
      exact .line
  · cases h
    exact .line

theorem fault_of_declare {fields declared : List Field} {e : Error}
    (h : l.declare model fields declared = .error e) : l.Fault source e := by
  induction declared generalizing fields with
  | nil => cases h
  | cons f declared ih =>
    unfold declare at h
    split at h
    · cases h
      exact .name
    · exact ih h

theorem fault_of_readAll {fields : List Field} {ls : List Line} {e : Error}
    (spelt : ∀ l ∈ ls, ∀ t ∈ l.tokens, t.word.Spelt)
    (h : readAll source model fields ls = .error e) : ∃ l ∈ ls, l.Fault source e := by
  induction ls generalizing fields with
  | nil => cases h
  | cons l ls ih =>
    obtain ⟨head, tail⟩ := List.forall_mem_cons.mp spelt
    rcases bind_eq_error_iff.mp h with h | ⟨⟨declared, _⟩, -, h⟩
    · exact ⟨l, List.mem_cons_self, fault_of_read head h⟩
    rcases bind_eq_error_iff.mp h with h | ⟨joined, -, h⟩
    · exact ⟨l, List.mem_cons_self, fault_of_declare h⟩
    rcases bind_eq_error_iff.mp h with h | ⟨_, -, h⟩
    · obtain ⟨l', hl', fault⟩ := ih tail h
      exact ⟨l', List.mem_cons_of_mem l hl', fault⟩
    · cases h

end Line

/-- What an error can say of the tokens of a text. -/
inductive Fault (source : String) (tokens : List Token) : Error → Prop
  | line {b l e} : b ∈ (Outline.ofTokens tokens).blocks → l ∈ Line.ofBody b.body →
      l.Fault source e → Fault source tokens e
  | name {b model} : b ∈ (Outline.ofTokens tokens).blocks →
      Fault source tokens (.duplicateModel model b.name.line b.name.span)
  | unclosed {keyword name} : (Outline.ofTokens tokens).unclosed? = some (keyword, name) →
      Fault source tokens (.unbalancedBraces name.text keyword.line
        ⟨keyword.span.start, Text.byteLength source.toList⟩)

/-- The parts of a block stand among the tokens, the body in one piece. -/
theorem Blocks.parts {ts : List Token} {bs : List Block} (h : Blocks ts bs) {b : Block}
    (hb : b ∈ bs) : b.name ∈ ts ∧ b.name.kind = .identifier ∧ b.body <:+: ts := by
  induction h with
  | nil => cases hb
  | @skip t ts bs _ _ ih =>
    obtain ⟨name, kind, body⟩ := ih hb
    exact ⟨List.mem_cons_of_mem t name, kind, body.trans (List.suffix_cons t ts).isInfix⟩
  | @block keyword name opening closing first second body after bs _ _ hname _ _ _ _ _ ih =>
    rcases List.mem_cons.mp hb with rfl | hb
    · exact ⟨by simp, hname, keyword :: first ++ name :: second ++ [opening], closing :: after,
        by simp⟩
    · obtain ⟨name', kind, body'⟩ := ih hb
      have suffix : after <:+
          keyword :: first ++ name :: second ++ opening :: (body ++ closing :: after) :=
        ⟨keyword :: first ++ name :: second ++ opening :: (body ++ [closing]), by simp⟩
      exact ⟨suffix.mem name', kind, body'.trans suffix.isInfix⟩

namespace Outline

variable {ts : List Token}

theorem parts_of_mem_blocks {b : Block} (hb : b ∈ (ofTokens ts).blocks) :
    b.name ∈ ts ∧ b.name.kind = .identifier ∧ b.body <:+: ts := by
  obtain ⟨settled, rest, whole, blocks, -⟩ := exists_blocks ts
  obtain ⟨name, kind, body⟩ := blocks.parts hb
  have first : settled <+: ts := ⟨rest, whole.symm⟩
  exact ⟨first.mem name, kind, body.trans first.isInfix⟩

theorem keyword_mem_of_unclosed {keyword name : Token}
    (h : (ofTokens ts).unclosed? = some (keyword, name)) : keyword ∈ ts := by
  fun_induction ofTokens ts with
  | case1 => cases h
  | case2 t ts _ _ ih => exact List.mem_cons_of_mem t (ih h)
  | case3 =>
    cases h
    exact List.mem_cons_self
  | case4 t ts hk name inside header body after close outline ih =>
    obtain ⟨first, second, brace, rfl, -⟩ := Block.header?_eq_some_iff.mp header
    obtain ⟨closing, rfl, -⟩ := Block.close?_zero_eq_some_iff.mp close
    have := ih h
    simp [this]
  | case5 t ts _ ih => exact List.mem_cons_of_mem t (ih h)

end Outline

namespace Block

variable {source : String}

theorem exists_fault_of_read {b : Block} {e : Error} (spelt : ∀ t ∈ b.name :: b.body, t.word.Spelt)
    (name : b.name.kind = .identifier) (h : b.read source = .error e) :
    ∃ l ∈ Line.ofBody b.body, l.Fault source e := by
  obtain ⟨head, tail⟩ := List.forall_mem_cons.mp spelt
  obtain ⟨-, model, named⟩ := Token.exists_named head (by rw [name]; rfl)
  rcases bind_eq_error_iff.mp h with h | ⟨found, -, h⟩
  · rw [named] at h
    cases h
  rcases bind_eq_error_iff.mp h with h | ⟨⟨fields, ws⟩, read, h⟩
  · exact Line.fault_of_readAll (fun l hl t ht => tail t (Line.mem_of_mem_ofBody hl t ht)) h
  -- The fields of the lines have distinct names already.
  obtain ⟨_, -, -, distinct, -⟩ := (Line.readAll_eq_ok_iff [] List.nodup_nil).mp read
  have formed : Model.ofFields found fields = .ok ⟨found, fields, distinct⟩ :=
    Model.ofFields_eq_ok_iff.mpr ⟨rfl, rfl⟩
  simp only [formed] at h
  cases h

theorem fault_of_readAll {tokens : List Token} {d : Document} {bs : List Block} {e : Error}
    (spelt : ∀ t ∈ tokens, t.word.Spelt) (blocks : ∀ b ∈ bs, b ∈ (Outline.ofTokens tokens).blocks)
    (h : readAll source d bs = .error e) : Fault source tokens e := by
  induction bs generalizing d with
  | nil => cases h
  | cons b bs ih =>
    obtain ⟨hb, rest⟩ := List.forall_mem_cons.mp blocks
    obtain ⟨name, kind, body⟩ := Outline.parts_of_mem_blocks hb
    rcases bind_eq_error_iff.mp h with h | ⟨⟨model, ws⟩, -, h⟩
    · have inside : ∀ t ∈ b.name :: b.body, t.word.Spelt :=
        List.forall_mem_cons.mpr ⟨spelt _ name, fun t ht => spelt t (body.mem ht)⟩
      obtain ⟨l, hl, fault⟩ := exists_fault_of_read inside kind h
      exact .line hb hl fault
    simp only at h
    split at h
    · cases h
      exact .name hb
    · rcases bind_eq_error_iff.mp h with h | ⟨_, -, h⟩
      · exact ih rest h
      · cases h

end Block

theorem Token.spelt_of_tokenize {source : String} {tokens : List Token}
    (tokenized : tokenize source = .ok tokens) : ∀ t ∈ tokens, t.word.Spelt := by
  intro t ht
  have mem : t.word ∈ words source.toList :=
    map_word_of_tokenize tokenized ▸ List.mem_map_of_mem ht
  exact spelt_of_mem_words mem (not_isCut_of_tokenize tokenized _ mem)

/-- An error comes from the scan, or tells of the tokens. -/
theorem fault_of_parse {source : String} {e : Error} (h : parse source = .error e) :
    Token.tokenize source = .error e ∨
      ∃ tokens, Token.tokenize source = .ok tokens ∧ Fault source tokens e := by
  rcases bind_eq_error_iff.mp h with h | ⟨tokens, tokenized, h⟩
  · exact .inl h
  refine .inr ⟨tokens, tokenized, ?_⟩
  rcases bind_eq_error_iff.mp h with h | ⟨_, -, h⟩
  · exact Block.fault_of_readAll (Token.spelt_of_tokenize tokenized) (fun _ hb => hb) h
  simp only at h
  split at h
  · cases h
  · next unclosed =>
    cases h
    exact .unclosed unclosed

end SchemaPlan.Source
