import SchemaPlan.Proofs.Source.Opening
import SchemaPlan.Proofs.Source.Relocation

/-!
# Texts that follow one another

Two texts that a line feed joins declare what they declare on their own, one after the other, unless
the first ends where a block might still open.
-/

namespace SchemaPlan.Source

namespace Block

/-- The first model whose name is known ends the reading. -/
theorem readAll_duplicate {source : String} {d : Document} {bs : List Block}
    {results : List (Model × List Warning)} {before after : List Model} {m : Model}
    (reads : List.Forall₂ (fun b r => b.read source = .ok r) bs results)
    (models : results.map Prod.fst = before ++ m :: after)
    (distinct : (before.map Model.name).Nodup) (fresh : ∀ n ∈ before, ¬ d.Contains n.name)
    (known : d.Contains m.name) :
    ∃ line span, readAll source d bs = .error (.duplicateModel m.name.text line span) := by
  induction before generalizing d bs results with
  | nil =>
    obtain ⟨r, later, rfl, rfl, -⟩ := List.map_eq_cons_iff.mp models
    obtain ⟨b, bs, read, -, rfl⟩ := List.forall₂_cons_right_iff.mp reads
    have refused : d.insert r.1 = .error (.duplicateModel r.1.name.text) := dif_pos known
    refine ⟨b.name.line, b.name.span, ?_⟩
    rw [readAll, read]
    simp only [bind, Except.bind, refused]
  | cons n before ih =>
    obtain ⟨r, others, rfl, rfl, rest⟩ := List.map_eq_cons_iff.mp models
    obtain ⟨b, bs, read, later, rfl⟩ := List.forall₂_cons_right_iff.mp reads
    obtain ⟨head, tail⟩ := List.forall_mem_cons.mp fresh
    obtain ⟨once, others⟩ := List.nodup_cons.mp distinct
    obtain ⟨joined, insert⟩ : ∃ joined, d.insert r.1 = .ok joined := ⟨_, dif_neg head⟩
    have contains := Document.contains_iff_of_models (Document.insert_eq_ok_iff.mp insert)
    -- The document grows by a model that none of the others is named like.
    have fresh : ∀ k ∈ before, ¬ joined.Contains k.name := by
      intro k hk known
      rcases (contains _).mp known with known | same
      · exact tail k hk known
      · exact once (same ▸ List.mem_map_of_mem hk)
    obtain ⟨line, span, refused⟩ := ih later rest others fresh ((contains _).mpr (.inl known))
    refine ⟨line, span, ?_⟩
    rw [readAll, read]
    simp only [bind, Except.bind, insert, refused]

/-- Blocks that are read on their own are read further on in a text, after other models. -/
theorem readAll_shift (m : Shift) {source : String} (source' : String) {bs : List Block}
    (d₁ : Document) {d₂ : Document} {ws : List Warning} (h : readAll source ∅ bs = .ok (d₂, ws)) :
    (d₂.models.find? (fun n => d₁.Contains n.name) = none →
      ∃ d : Document, d.models = d₁.models ++ d₂.models ∧
        readAll source' d₁ (bs.map (·.shift m)) = .ok (d, ws.map (·.shift m))) ∧
    ∀ n, d₂.models.find? (fun n => d₁.Contains n.name) = some n →
      ∃ line span, readAll source' d₁ (bs.map (·.shift m)) =
        .error (.duplicateModel n.name.text line span) := by
  obtain ⟨results, reads, models, rfl⟩ := readAll_eq_ok_iff.mp h
  rw [Document.models_empty, List.nil_append] at models
  have moved : List.Forall₂ (fun b r => b.read source' = .ok r) (bs.map (·.shift m))
      (results.map fun r => (r.1, r.2.map (·.shift m))) := by
    rw [List.forall₂_map_left_iff, List.forall₂_map_right_iff]
    exact reads.imp fun b r read => read_shift m source' read
  have same : (results.map fun r => (r.1, r.2.map (·.shift m))).map Prod.fst = d₂.models := by
    rw [models, List.map_map]
    rfl
  constructor
  · intro apart
    have distinct : ((d₁.models ++ d₂.models).map Model.name).Nodup := by
      rw [List.map_append, List.nodup_append]
      refine ⟨d₁.distinct, d₂.distinct, fun a ha b hb e => ?_⟩
      obtain ⟨n, hn, rfl⟩ := List.mem_map.mp hb
      have fresh : ¬ d₁.Contains n.name := by simpa using List.find?_eq_none.mp apart n hn
      exact fresh (e ▸ ha)
    refine ⟨⟨_, distinct⟩, rfl, readAll_eq_ok_iff.mpr ⟨_, moved, ?_, ?_⟩⟩
    · rw [same]
    · rw [List.flatMap_map, List.map_flatMap]
  · intro n found
    obtain ⟨known, before, after, split, fresh⟩ := List.find?_eq_some_iff_append.mp found
    have distinct := d₂.distinct
    rw [split, List.map_append, List.nodup_append] at distinct
    exact readAll_duplicate moved (same.trans split) distinct.1 (by simpa using fresh)
      (by simpa using known)

end Block

/-- The tokens of joined texts, and the blocks among them. -/
theorem outline_joined {s₁ s₂ : String} {tokens₁ tokens₂ : List Token}
    (tokenized₁ : Token.tokenize s₁ = .ok tokens₁) (tokenized₂ : Token.tokenize s₂ = .ok tokens₂) :
    ∃ tokens, Token.tokenize (s₁ ++ "\n" ++ s₂) = .ok tokens ∧
      (Outline.ofTokens tokens₁).blocks <+: (Outline.ofTokens tokens).blocks ∧
      ((Outline.ofTokens tokens₁).unclosed? = none → ¬ Dangles tokens₁ →
        (Outline.ofTokens tokens₂).unclosed? = none →
        Outline.ofTokens tokens =
          ⟨(Outline.ofTokens tokens₁).blocks ++
            (Outline.ofTokens tokens₂).blocks.map (·.shift (.past s₁)), none⟩) := by
  obtain ⟨clean₁, rfl⟩ := Token.tokenize_eq_ok_iff.mp tokenized₁
  obtain ⟨clean₂, rfl⟩ := Token.tokenize_eq_ok_iff.mp tokenized₂
  obtain ⟨ts, ends, lineFeed, whole, newlines, feed, joined⟩ :=
    (Token.exists_scan_joined s₁).2 clean₁
  obtain ⟨tokens, clean⟩ := joined s₂
  obtain ⟨blocks, outline⟩ := Outline.ofTokens_append ts newlines
    (lineFeed :: (Token.scan s₂).tokens.map (·.shift (.past s₁)))
  rw [← whole, ← tokens] at blocks outline
  refine ⟨_, Token.tokenize_eq_ok_iff.mpr ⟨clean.mpr clean₂, rfl⟩, blocks, ?_⟩
  intro closed₁ still closed₂
  have skipped (us : List Token) : Outline.ofTokens (lineFeed :: us) = Outline.ofTokens us :=
    Outline.ofTokens_skip fun e => absurd (feed.symm.trans e) (by decide)
  rw [outline closed₁ still, skipped, Outline.ofTokens_map_shift, closed₂]
  rfl

/-- The blocks of the first of two texts are read in the joined text as on their own. -/
theorem readAll_joined {s₁ : String} {tokens₁ : List Token}
    (tokenized₁ : Token.tokenize s₁ = .ok tokens₁) (s₂ : String) :
    Block.readAll (s₁ ++ "\n" ++ s₂) ∅ (Outline.ofTokens tokens₁).blocks =
      Block.readAll s₁ ∅ (Outline.ofTokens tokens₁).blocks := by
  obtain ⟨-, rfl⟩ := Token.tokenize_eq_ok_iff.mp tokenized₁
  rw [String.append_assoc]
  exact Block.readAll_append_source _ ∅ fun b hb t ht =>
    Token.within_of_scan (Outline.mem_of_mem_body hb t ht)

theorem parse_joined_ok {s₁ s₂ : String} {r₁ r₂ : Declared} (h₁ : parse s₁ = .ok r₁)
    (h₂ : parse s₂ = .ok r₂) (still : ¬ Dangles (Token.scan s₁).tokens) :
    (r₂.document.models.find? (fun m => r₁.document.Contains m.name) = none →
      ∃ d : Document, d.models = r₁.document.models ++ r₂.document.models ∧
        parse (s₁ ++ "\n" ++ s₂) =
          .ok ⟨d, r₁.warnings ++ r₂.warnings.map (·.shift (.past s₁))⟩) ∧
    ∀ m, r₂.document.models.find? (fun m => r₁.document.Contains m.name) = some m →
      ∃ line span, parse (s₁ ++ "\n" ++ s₂) = .error (.duplicateModel m.name.text line span) := by
  obtain ⟨tokens₁, tokenized₁, closed₁, read₁⟩ := parse_eq_ok_iff.mp h₁
  obtain ⟨tokens₂, tokenized₂, closed₂, read₂⟩ := parse_eq_ok_iff.mp h₂
  obtain ⟨tokens, tokenized, -, outline⟩ := outline_joined tokenized₁ tokenized₂
  rw [(Token.tokenize_eq_ok_iff.mp tokenized₁).2] at still
  have outline := outline closed₁ still closed₂
  have whole : Block.readAll (s₁ ++ "\n" ++ s₂) ∅ (Outline.ofTokens tokens).blocks =
      Block.readAll (s₁ ++ "\n" ++ s₂) r₁.document
        ((Outline.ofTokens tokens₂).blocks.map (·.shift (.past s₁))) >>= fun later =>
          .ok (later.1, r₁.warnings ++ later.2) := by
    rw [outline, Block.readAll_append, readAll_joined tokenized₁, read₁]
    rfl
  obtain ⟨apart, shared⟩ := Block.readAll_shift (.past s₁) (s₁ ++ "\n" ++ s₂) r₁.document read₂
  constructor
  · intro none
    obtain ⟨d, models, read⟩ := apart none
    refine ⟨d, models, parse_eq_ok_iff.mpr ⟨tokens, tokenized, by rw [outline], ?_⟩⟩
    rw [whole, read]
    rfl
  · intro m found
    obtain ⟨line, span, refused⟩ := shared m found
    refine ⟨line, span, parse_of_readAll_error tokenized ?_⟩
    rw [whole, refused]
    rfl

theorem parse_joined_error {s₁ s₂ : String} {e : Error} {tokens₂ : List Token}
    (h : parse s₁ = .error e) (other : ∀ model line span, e ≠ .unbalancedBraces model line span)
    (tokenized₂ : Token.tokenize s₂ = .ok tokens₂) : parse (s₁ ++ "\n" ++ s₂) = .error e := by
  rcases parse_error_cases h with lexical | ⟨tokens₁, tokenized₁, refused | ⟨_, _, _, unclosed⟩⟩
  · have found := (Token.exists_scan_joined s₁).1 e (Token.tokenize_eq_error_iff.mp lexical) s₂
    exact bind_eq_error_iff.mpr (.inl (Token.tokenize_eq_error_iff.mpr found))
  · obtain ⟨tokens, tokenized, ⟨more, blocks⟩, -⟩ := outline_joined tokenized₁ tokenized₂
    apply parse_of_readAll_error tokenized
    rw [← blocks, Block.readAll_append, readAll_joined tokenized₁, refused]
    rfl
  · exact absurd unclosed (other _ _ _)

/-- Two texts with a line feed between them. If the first ends in no beginning of a block, the models
of the second follow those of the first, and a name that comes twice is found at the first model of the
second text that has one. An error in the first text stays, except that a block left open may go on. -/
theorem parse_joined (s₁ s₂ : String) :
    (∀ r₁ r₂, parse s₁ = .ok r₁ → parse s₂ = .ok r₂ → ¬ Dangles (Token.scan s₁).tokens →
      (r₂.document.models.find? (fun m => r₁.document.Contains m.name) = none →
        ∃ d : Document, d.models = r₁.document.models ++ r₂.document.models ∧
          parse (s₁ ++ "\n" ++ s₂) =
            .ok ⟨d, r₁.warnings ++ r₂.warnings.map (·.shift (.past s₁))⟩) ∧
      ∀ m, r₂.document.models.find? (fun m => r₁.document.Contains m.name) = some m →
        ∃ line span, parse (s₁ ++ "\n" ++ s₂) = .error (.duplicateModel m.name.text line span)) ∧
    ∀ e, parse s₁ = .error e → (∀ model line span, e ≠ .unbalancedBraces model line span) →
      (∃ tokens, Token.tokenize s₂ = .ok tokens) → parse (s₁ ++ "\n" ++ s₂) = .error e := by
  refine ⟨fun _ _ h₁ h₂ still => parse_joined_ok h₁ h₂ still, fun e h other lexed => ?_⟩
  obtain ⟨tokens₂, tokenized₂⟩ := lexed
  exact parse_joined_error h other tokenized₂

/-- A text that ends in a carriage return, before another and before itself; a text with an error. -/
theorem parse_joined_of_return :
    (∃ d, d.names.map Identifier.text = ["A", "B"] ∧
      parse ("model A \x7b\n  a: date @x\n\x7d\r" ++ "\n" ++ "model B \x7b\n  b: date @y\n\x7d") =
        .ok ⟨d, [⟨.unknownAttribute "x", "A", "a", 2, ⟨20, 22⟩⟩,
          ⟨.unknownAttribute "y", "B", "b", 5, ⟨46, 48⟩⟩]⟩) ∧
    (∃ line span,
      parse ("model A \x7b\n  a: date @x\n\x7d\r" ++ "\n" ++ "model A \x7b\n  a: date @x\n\x7d\r") =
        .error (.duplicateModel "A" line span)) ∧
    parse ("model A \x7b a \x7d" ++ "\n" ++ "model B \x7b") =
      .error (.malformedLine "A" 1 "a" ⟨10, 11⟩) := by
  have first : parse "model A \x7b\n  a: date @x\n\x7d\r" =
      .ok ⟨⟨[⟨⟨"A", by decide⟩, [⟨⟨"a", by decide⟩, .primitive .date, ∅⟩], by simp⟩], by simp⟩,
        [⟨.unknownAttribute "x", "A", "a", 2, ⟨20, 22⟩⟩]⟩ := by with_unfolding_all rfl
  have second : parse "model B \x7b\n  b: date @y\n\x7d" =
      .ok ⟨⟨[⟨⟨"B", by decide⟩, [⟨⟨"b", by decide⟩, .primitive .date, ∅⟩], by simp⟩], by simp⟩,
        [⟨.unknownAttribute "y", "B", "b", 2, ⟨20, 22⟩⟩]⟩ := by with_unfolding_all rfl
  have still : ¬ Dangles (Token.scan "model A \x7b\n  a: date @x\n\x7d\r").tokens := by
    rintro ⟨before, last, tokens, kinds⟩
    have brace : ((Token.scan "model A \x7b\n  a: date @x\n\x7d\r").tokens.filter
        (!·.isNewline)).getLast?.map Token.kind = some .closeBrace := by with_unfolding_all rfl
    rw [tokens, List.getLast?_append] at brace
    have brace : last.kind = .closeBrace := by simpa using brace
    rcases kinds with kind | ⟨kind, -⟩ <;> exact absurd (kind.symm.trans brace) (by decide)
  refine ⟨?_, ?_, ?_⟩
  · obtain ⟨d, models, joined⟩ := ((parse_joined _ _).1 _ _ first second still).1 (by decide)
    exact ⟨d, by rw [Document.names, models]; rfl, joined⟩
  · exact ((parse_joined _ _).1 _ _ first first still).2 _ rfl
  · exact (parse_joined _ _).2 _ (by with_unfolding_all rfl) (by simp) ⟨_, by with_unfolding_all rfl⟩

end SchemaPlan.Source
