import SchemaPlan.Proofs.Source.Tiling

/-!
# Names as texts and as tokens

A text that is one token from its start to its end is a text of that token's kind, and every text of
a kind is one such token. So the scan and the check of names recognise the same texts, the word
`model` among them.
-/

namespace SchemaPlan.Source

/-- A token that is the whole of a source. Blanks and comments are no tokens, so it is not enough
that no other token is there. -/
structure Token.Fills (t : Token) (source : String) : Prop where
  alone : tokenize source = .ok [t]
  span : t.span = ⟨0, Text.byteLength source.toList⟩

theorem TokenText.scan {kind : TokenKind} {cs : List Char} (h : TokenText kind cs) :
    Lexeme.scan cs = [.token kind cs] := by
  obtain ⟨c, cs, rfl⟩ := List.exists_cons_of_ne_nil h.ne_nil
  rw [Lexeme.scan_cons, h.first, Lexeme.scan_nil]

theorem TokenText.fills {kind : TokenKind} {source : String} (h : TokenText kind source.toList) :
    Token.Fills ⟨kind, ⟨0, Text.byteLength source.toList⟩, source, 1, 1⟩ source := by
  refine ⟨Token.tokenize_eq_ok_iff.mpr ?_, rfl⟩
  simp [Token.scan, h.scan, Token.ofLexemes, Lexeme.token, h.not_isUnterminated, Place.start,
    Place.spanTo]

namespace Token.Fills

variable {t : Token} {source : String}

theorem slice (h : t.Fills source) : t.span.slice source = source := by
  have whole : Piece source.toList [] source.toList 1 t.span := ⟨List.prefix_rfl, h.span, rfl⟩
  rw [whole.slice, String.ofList_toList]

theorem tokenText (h : t.Fills source) : TokenText t.kind source.toList := by
  obtain ⟨before, -, standing⟩ := (tiling_of_tokenize h.alone).standing List.mem_cons_self
  -- The span covers the source, and the text of a token is what its span covers.
  have text : source = t.text := by
    rw [← h.slice, standing.piece.slice, String.ofList_toList]
  rw [text]
  exact standing.text

end Token.Fills

theorem tokenText_model_iff {cs : List Char} :
    TokenText .model cs ↔ cs = ['m', 'o', 'd', 'e', 'l'] := by
  constructor
  · intro text
    cases text with
    | mark mark => simp [marks] at mark
    | model => rfl
  · rintro rfl
    exact .model

theorem isIdentifier_iff_tokenText {cs : List Char} :
    isIdentifier cs ↔ ∃ kind, TokenText kind cs ∧ kind.isName := by
  constructor
  · intro name
    by_cases keyword : cs = ['m', 'o', 'd', 'e', 'l']
    · exact ⟨.model, tokenText_model_iff.mpr keyword, rfl⟩
    · exact ⟨.identifier, .identifier name keyword, rfl⟩
  · rintro ⟨kind, text, name⟩
    cases text with
    | model => decide
    | identifier name => exact name
    | mark mark =>
      have unnamed : ∀ m ∈ marks, m.2.isName = false := by decide
      rw [unnamed _ mark] at name
      cases name
    | _ => cases name

/-- The texts that are one token, a name, are the identifiers. One of them is the keyword. -/
theorem isIdentifier_iff_fills (source : String) :
    (isIdentifier source.toList ↔ ∃ t : Token, t.Fills source ∧ t.kind.isName) ∧
    ∀ t : Token, t.Fills source → (t.kind = .model ↔ source = "model") := by
  constructor
  · rw [isIdentifier_iff_tokenText]
    constructor
    · rintro ⟨kind, text, name⟩
      exact ⟨_, text.fills, name⟩
    · rintro ⟨t, fills, name⟩
      exact ⟨t.kind, fills.tokenText, name⟩
  · intro t fills
    have keyword : TokenText .model source.toList ↔ source = "model" := by
      rw [tokenText_model_iff, ← String.toList_inj]
      rfl
    rw [← keyword]
    constructor
    · intro kind
      exact kind ▸ fills.tokenText
    · intro text
      exact fills.tokenText.unique text

/-- The keyword, and a name that starts with it. -/
theorem isIdentifier_iff_fills_of_keyword :
    (∃ t : Token, t.Fills "model" ∧ t.kind.isName ∧ t.kind = .model) ∧
    ∃ t : Token, t.Fills "model_1" ∧ t.kind.isName ∧ t.kind ≠ .model := by
  have keyword : Token.Fills ⟨.model, ⟨0, 5⟩, "model", 1, 1⟩ "model" := ⟨by decide +kernel, rfl⟩
  have longer : Token.Fills ⟨.identifier, ⟨0, 7⟩, "model_1", 1, 1⟩ "model_1" :=
    ⟨by decide +kernel, rfl⟩
  constructor
  · exact ⟨_, keyword, rfl, ((isIdentifier_iff_fills "model").2 _ keyword).mpr rfl⟩
  · refine ⟨_, longer, rfl, ?_⟩
    rw [ne_eq, (isIdentifier_iff_fills "model_1").2 _ longer]
    decide

/-- The only token here is a name, but the text is no identifier. -/
example : (Token.tokenize " a # b").map (·.map Token.word) = .ok [⟨.identifier, "a"⟩] ∧
    isIdentifier " a # b".toList = false := by decide +kernel

end SchemaPlan.Source
