import Mathlib.Data.List.Nodup
import SchemaPlan.Proofs.Source.Declaration

/-!
# What is accepted

A text is read exactly if its words are well formed, and what is read is what they declare.
-/

namespace SchemaPlan.Source

theorem Outlined.mem_words {ws : List Word} {ds : List Declaration} (h : Outlined ws ds) :
    ∀ d ∈ ds, d.name.kind = .identifier ∧ d.name ∈ ws ∧ ∀ w ∈ d.body, w ∈ ws := by
  induction h with
  | nil => simp
  | skip _ _ ih =>
    intro d hd
    obtain ⟨kind, name, body⟩ := ih d hd
    exact ⟨kind, List.mem_cons_of_mem _ name, fun w hw => List.mem_cons_of_mem _ (body w hw)⟩
  | @block ws body after name closing ds opens _ _ _ ih =>
    generalize hinside : body ++ closing :: after = inside at opens
    obtain ⟨-, -, hname, -, -⟩ := opens
    subst hinside
    intro d hd
    rcases List.mem_cons.mp hd with rfl | hd
    · refine ⟨hname, by simp, fun w hw => ?_⟩
      simp [hw]
    · obtain ⟨kind, name, body⟩ := ih d hd
      refine ⟨kind, by simp [name], fun w hw => ?_⟩
      simp [body w hw]

/-- A text is read into the document that its blocks declare. -/
theorem exists_parse_iff {source : String} {d : Document} :
    (∃ warnings, parse source = .ok ⟨d, warnings⟩) ↔
      (∀ w ∈ words source.toList, ¬ w.IsCut) ∧
        ∃ ds, Outlined (words source.toList) ds ∧ List.Forall₂ Declaration.Declares ds d.models := by
  have blocks {tokens : List Token} (tokenized : Token.tokenize source = .ok tokens)
      (closed : (Outline.ofTokens tokens).unclosed? = none) :
      (∃ warnings, Block.readAll source ∅ (Outline.ofTokens tokens).blocks = .ok (d, warnings)) ↔
        List.Forall₂ Declaration.Declares
          ((Outline.ofTokens tokens).blocks.map Block.declaration) d.models := by
    have inside := (outlined_ofTokens closed).mem_words
    rw [Token.map_word_of_tokenize tokenized] at inside
    have bodySpelt : ∀ b ∈ (Outline.ofTokens tokens).blocks, ∀ w ∈ b.declaration.body, w.Spelt := by
      intro b hb w hw
      have mem := (inside _ (List.mem_map_of_mem hb)).2.2 w hw
      exact spelt_of_mem_words mem (Token.not_isCut_of_tokenize tokenized w mem)
    rw [List.forall₂_map_left_iff, ← forall₂_congr_of_mem fun b hb m =>
      Block.exists_read_iff (bodySpelt b hb),
      forall₂_exists_iff (R := fun b r => Block.read b source = .ok r)]
    simp only [Block.readAll_eq_ok_iff, Document.models_empty, List.nil_append]
    constructor
    · rintro ⟨_, results, reads, models, -⟩
      exact ⟨results, reads, models.symm⟩
    · rintro ⟨results, reads, models⟩
      exact ⟨_, results, reads, models.symm, rfl⟩
  simp only [parse_eq_ok_iff]
  constructor
  · rintro ⟨_, tokens, tokenized, closed, read⟩
    have outlined := outlined_ofTokens closed
    rw [Token.map_word_of_tokenize tokenized] at outlined
    refine ⟨Token.not_isCut_of_tokenize tokenized, _, outlined, ?_⟩
    exact (blocks tokenized closed).mp ⟨_, read⟩
  · rintro ⟨uncut, ds, outlined, declared⟩
    obtain ⟨tokens, tokenized⟩ := Token.exists_tokenize uncut
    rw [← Token.map_word_of_tokenize tokenized] at outlined
    obtain ⟨closed, rfl⟩ := ofTokens_of_outlined outlined
    obtain ⟨warnings, read⟩ := (blocks tokenized closed).mpr declared
    exact ⟨warnings, tokens, tokenized, closed, read⟩

/-- Words fall into blocks in one way. -/
theorem Outlined.unique {source : String} {ds es : List Declaration}
    (uncut : ∀ w ∈ words source.toList, ¬ w.IsCut) (hd : Outlined (words source.toList) ds)
    (he : Outlined (words source.toList) es) : ds = es := by
  obtain ⟨tokens, tokenized⟩ := Token.exists_tokenize uncut
  rw [← Token.map_word_of_tokenize tokenized] at hd he
  exact (ofTokens_of_outlined hd).2.symm.trans (ofTokens_of_outlined he).2

end SchemaPlan.Source
