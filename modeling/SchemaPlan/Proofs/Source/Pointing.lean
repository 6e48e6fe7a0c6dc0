import SchemaPlan.Proofs.Source.Account

/-!
# Where errors and warnings point

Errors and warnings carry the line and the span of a part of the text. What they quote is this part.
An error about a line of a block points at the line from its first token to its last one.
-/

namespace SchemaPlan.Source

theorem TokenText.unbroken {kind : TokenKind} {cs : List Char} (h : TokenText kind cs)
    (other : kind ≠ .newline) : ∀ c ∈ cs, ¬ isLineBreak c := by
  cases h with
  | mark mark =>
    have plain : ∀ m ∈ marks, ¬ isLineBreak m.1 := by decide
    exact List.forall_mem_singleton.mpr (plain _ mark)
  | lineBreak => exact absurd rfl other
  | lineBreakPair => exact absurd rfl other
  | model => exact unbroken_of_isIdentifier (by decide)
  | identifier name => exact unbroken_of_isIdentifier name
  | tag text => exact text.unbroken
  | other _ lineBreak => exact List.forall_mem_singleton.mpr lineBreak

theorem CutText.unbroken {cs : List Char} (h : CutText cs) : ∀ c ∈ cs, ¬ isLineBreak c := by
  cases h with
  | intro name inside =>
    refine List.forall_mem_append.mpr ⟨?_, ?_⟩
    · exact List.forall_mem_cons.mpr ⟨by decide, unbroken_of_isIdentifier name⟩
    · refine List.forall_mem_cons.mpr ⟨by decide, fun c hc => ?_⟩
      exact not_isLineBreak_of_isArgument (inside c hc)

namespace Tiling

variable {before rest : List Char} {error? : Option Error}

/-- Behind some tokens, the others tile what is left of the text. -/
theorem drop {passed tokens : List Token} (h : Tiling before rest ⟨passed ++ tokens, error?⟩) :
    ∃ front back, front ++ back = before ++ rest ∧ Tiling front back ⟨tokens, error?⟩ := by
  induction passed generalizing before rest with
  | nil => exact ⟨before, rest, rfl, h⟩
  | cons t passed ih =>
    cases h with
    | token _ _ _ tiling =>
      obtain ⟨front, back, whole, tiling⟩ := ih tiling
      exact ⟨front, back, by simp [whole], tiling⟩

/-- Tokens in a row with no line break among them cover a part of the text on one line. -/
theorem row {first : Token} {row more : List Token}
    (h : Tiling before rest ⟨first :: row ++ more, error?⟩)
    (solid : ∀ t ∈ first :: row, t.kind ≠ .newline) :
    ∃ gap text, (∀ c ∈ gap ++ text, ¬ isLineBreak c) ∧
      Piece (before ++ rest) (before ++ gap) text first.line
        ⟨first.span.start, ((first :: row).getLast (by simp)).span.stop⟩ := by
  induction row generalizing before rest first with
  | nil =>
    cases h with
    | @token _ gap text rest _ _ _ blank spelt _ _ =>
      obtain ⟨kind, -⟩ := List.forall_mem_cons.mp solid
      refine ⟨gap, text, ?_, by simp, rfl, rfl⟩
      exact List.forall_mem_append.mpr ⟨blank.unbroken, spelt.unbroken kind⟩
  | cons t row ih =>
    cases h with
    | @token _ gap text rest _ _ _ blank spelt _ tiling =>
      obtain ⟨kind, solid⟩ := List.forall_mem_cons.mp solid
      obtain ⟨gap', text', unbroken, inside, span, -⟩ := ih tiling solid
      have stop : ((t :: row).getLast (by simp)).span.stop =
          Text.byteLength (before ++ gap ++ text ++ gap' ++ text') := congrArg Span.stop span
      refine ⟨gap, text ++ (gap' ++ text'), ?_, ?_, ?_, rfl⟩
      · have inText := List.forall_mem_append.mpr ⟨spelt.unbroken kind, unbroken⟩
        exact List.forall_mem_append.mpr ⟨blank.unbroken, inText⟩
      · simpa only [List.append_assoc] using inside
      · rw [List.getLast_cons (by simp), stop]
        simp only [Span.over, List.append_assoc]

/-- A token covers a part of the text. -/
theorem standing_of_mem {source : String} {tokens : List Token}
    (h : Tiling [] source.toList ⟨tokens, error?⟩) {t : Token} (ht : t ∈ tokens) :
    ∃ before, t.Standing source.toList before := by
  obtain ⟨front, -, standing⟩ := h.standing ht
  exact ⟨front, standing⟩

end Tiling

/-- Tokens of a body that make one of its lines: no line break is among them, and none of their
neighbours is on the same line. -/
structure IsLine (body line : List Token) : Prop where
  solid : line ≠ []
  unbroken : ∀ t ∈ line, t.kind ≠ .newline
  between : ∃ before after, body = before ++ line ++ after ∧
    (∀ t ∈ before.getLast?, t.kind = .newline) ∧ ∀ t ∈ after.head?, t.kind = .newline

namespace Line

/-- The first line of a body. -/
theorem solid_takeWhile {t : Token} (solid : ¬ t.isNewline) (rest : List Token) :
    ∀ u ∈ t :: rest.takeWhile (!·.isNewline), u.isNewline = false := by
  refine List.forall_mem_cons.mpr ⟨by simpa using solid, fun u hu => ?_⟩
  simpa using List.mem_takeWhile_imp hu

theorem newline_dropWhile (rest : List Token) :
    ∀ u ∈ (rest.dropWhile (!·.isNewline)).head?, u.isNewline := by
  intro u hu
  simpa using head?_dropWhile rest u hu

theorem isLine_of_mem_ofBody {body : List Token} {l : Line} (hl : l ∈ ofBody body) :
    IsLine body l.tokens := by
  fun_induction ofBody body with
  | case1 => cases hl
  | case2 t rest newline ih =>
    obtain ⟨solid, unbroken, before, after, rfl, left, right⟩ := ih hl
    refine ⟨solid, unbroken, t :: before, after, by simp, ?_, right⟩
    cases before with
    | nil => simpa [Token.isNewline] using newline
    | cons u before => simpa [List.getLast?_cons] using left
  | case3 t rest solid ih =>
    have whole :
        t :: rest = t :: rest.takeWhile (!·.isNewline) ++ rest.dropWhile (!·.isNewline) := by
      simp
    have first : ∀ u ∈ t :: rest.takeWhile (!·.isNewline), u.kind ≠ .newline := by
      intro u hu newline
      have other := solid_takeWhile solid rest u hu
      rw [Token.isNewline_iff.mpr newline] at other
      cases other
    have stop : ∀ u ∈ (rest.dropWhile (!·.isNewline)).head?, u.kind = .newline :=
      fun u hu => Token.isNewline_iff.mp (newline_dropWhile rest u hu)
    rcases List.mem_cons.mp hl with rfl | hl
    · exact ⟨by simp [tokens], first, [], rest.dropWhile (!·.isNewline), whole, by simp, stop⟩
    · obtain ⟨solid, unbroken, before, after, split, left, right⟩ := ih hl
      refine ⟨solid, unbroken, t :: rest.takeWhile (!·.isNewline) ++ before, after, ?_, ?_, right⟩
      · rw [whole, split]
        simp
      -- The line break that ends the first line keeps the two lines apart.
      · cases before with
        | nil =>
          obtain ⟨u, more, line⟩ := List.exists_cons_of_ne_nil solid
          rw [split, line] at stop
          exact absurd (stop u rfl) (unbroken u (line ▸ List.mem_cons_self))
        | cons u before =>
          rwa [List.getLast?_append_of_ne_nil _ (by simp)]

/-- A line goes from the start of its first token to the end of its last one. -/
theorem span_eq {l : Line} (order : l.tokens.Pairwise fun t u => t.span.stop ≤ u.span.start)
    (forward : ∀ t ∈ l.tokens, t.span.start ≤ t.span.stop) :
    l.span = ⟨l.first.span.start, (l.tokens.getLast (by simp [tokens])).span.stop⟩ := by
  obtain ⟨first, rest⟩ := l
  cases rest with
  | nil => simp [span, tokens, Span.join]
  | cons u rest =>
    obtain ⟨before, -⟩ := List.pairwise_cons.mp order
    have last := List.getLast_mem (l := u :: rest) (by simp)
    have apart := before _ last
    have head := forward first List.mem_cons_self
    have tail := forward _ (List.mem_cons_of_mem first last)
    simp only [span, tokens, Span.join, List.getLast_cons_cons] at *
    rw [Nat.min_eq_left (by omega), Nat.max_eq_right (by omega)]

/-- A line of a block covers a part of the text in which no line breaks. -/
theorem piece {source : String} {tokens body : List Token} {error? : Option Error} {l : Line}
    (tiling : Tiling [] source.toList ⟨tokens, error?⟩) (inside : body <:+: tokens)
    (line : IsLine body l.tokens) :
    l.span = ⟨l.first.span.start, (l.tokens.getLast (by simp [Line.tokens])).span.stop⟩ ∧
      ∃ before text, (∀ c ∈ text, ¬ isLineBreak c) ∧
        Piece source.toList before text l.first.line l.span := by
  obtain ⟨-, unbroken, before, after, rfl, -, -⟩ := line
  obtain ⟨front, back, rfl⟩ := inside
  have contiguous : l.tokens <:+: front ++ (before ++ l.tokens ++ after) ++ back :=
    ⟨front ++ before, after ++ back, by simp⟩
  have span := span_eq (tiling.pairwise.sublist contiguous.sublist) fun t ht => by
    obtain ⟨_, standing⟩ := tiling.standing_of_mem (contiguous.mem ht)
    simp [standing.piece.span_eq]
  refine ⟨span, ?_⟩
  have split : front ++ (before ++ l.tokens ++ after) ++ back =
      (front ++ before) ++ (l.first :: l.rest ++ (after ++ back)) := by
    simp [Line.tokens]
  rw [split] at tiling
  obtain ⟨passed, left, whole, tiling⟩ := tiling.drop
  obtain ⟨gap, text, oneLine, piece⟩ := tiling.row unbroken
  rw [whole, List.nil_append] at piece
  rw [span]
  exact ⟨passed ++ gap, text, fun c hc => oneLine c (List.mem_append_right _ hc), piece⟩

end Line

/-- Tokens of a text that make a line of one of its blocks. Another block may stay open further on. -/
def IsBodyLine (source : String) (line : List Token) : Prop :=
  ∃ settled rest blocks, Tiling [] source.toList ⟨settled ++ rest, none⟩ ∧ Blocks settled blocks ∧
    ∃ b ∈ blocks, IsLine b.body line

namespace Error

/-- The part of the text that an error quotes. -/
def quoted? : Error → Option String
  | .unterminatedAttribute _ _ text _ => some text
  | .malformedLine _ _ content _ => some content
  | .malformedField _ _ content _ _ => some content
  | _ => none

/-- The error is about a line of a block as a whole. -/
def IsOfLine : Error → Prop
  | .malformedLine .. | .malformedField .. | .duplicateField .. => True
  | _ => False

/-- An error points at a part of the text, quotes nothing else, and does not cross the end of a line
where it quotes. If it is about a line, it points at all of it. -/
structure Points (source : String) (e : Error) : Prop where
  piece : ∃ before text, Piece source.toList before text e.line e.span
  quoted : ∀ text, e.quoted? = some text →
    e.span.slice source = text ∧ ∀ c ∈ text.toList, ¬ isLineBreak c
  line : e.IsOfLine → ∃ line first last, IsBodyLine source line ∧ line.head? = some first ∧
    line.getLast? = some last ∧ e.span = ⟨first.span.start, last.span.stop⟩

theorem Cut.points {source : String} {before text : List Char} {e : Error}
    (h : e.Cut source.toList before text) : e.Points source where
  piece := ⟨before, text, h.piece⟩
  quoted := by
    intro quote he
    rw [h.error] at he
    cases he
    exact ⟨h.piece.slice, by simpa using h.cut.unbroken⟩
  line := by
    rw [h.error]
    exact False.elim

end Error

theorem Line.Fault.points {source : String} {tokens : List Token} {b : Block} {l : Line} {e : Error}
    (tiling : Tiling [] source.toList ⟨tokens, none⟩)
    (hb : b ∈ (Outline.ofTokens tokens).blocks) (hl : l ∈ Line.ofBody b.body)
    (h : l.Fault source e) : e.Points source := by
  obtain ⟨-, -, inside⟩ := Outline.parts_of_mem_blocks hb
  have line := Line.isLine_of_mem_ofBody hl
  obtain ⟨span, before, text, unbroken, piece⟩ := Line.piece tiling inside line
  have inBlock : IsBodyLine source l.tokens := by
    obtain ⟨settled, rest, rfl, blocks, -⟩ := Outline.exists_blocks tokens
    exact ⟨settled, rest, _, tiling, blocks, b, hb, line⟩
  have whole : ∃ line first last, IsBodyLine source line ∧ line.head? = some first ∧
      line.getLast? = some last ∧ l.span = ⟨first.span.start, last.span.stop⟩ :=
    ⟨l.tokens, l.first, _, inBlock, rfl, List.getLast?_eq_some_getLast _, span⟩
  have quote : ∀ c ∈ (l.span.slice source).toList, ¬ isLineBreak c := by
    simpa [piece.slice] using unbroken
  cases h with
  | line =>
    exact ⟨⟨before, text, piece⟩, fun _ h => Option.some.inj h ▸ ⟨rfl, quote⟩, fun _ => whole⟩
  | field =>
    exact ⟨⟨before, text, piece⟩, fun _ h => Option.some.inj h ▸ ⟨rfl, quote⟩, fun _ => whole⟩
  | name => exact ⟨⟨before, text, piece⟩, nofun, fun _ => whole⟩
  | default ht =>
    obtain ⟨front, standing⟩ := tiling.standing_of_mem (inside.mem (Line.mem_of_mem_ofBody hl _ ht))
    exact ⟨⟨front, _, standing.piece⟩, nofun, False.elim⟩

theorem Fault.points {source : String} {tokens : List Token} {e : Error}
    (tiling : Tiling [] source.toList ⟨tokens, none⟩)
    (h : Fault source tokens e) : e.Points source := by
  cases h with
  | line hb hl fault => exact fault.points tiling hb hl
  | name hb =>
    obtain ⟨name, -⟩ := Outline.parts_of_mem_blocks hb
    obtain ⟨front, standing⟩ := tiling.standing_of_mem name
    exact ⟨⟨front, _, standing.piece⟩, nofun, False.elim⟩
  | @unclosed keyword name unclosed =>
    obtain ⟨front, standing⟩ := tiling.standing_of_mem (Outline.keyword_mem_of_unclosed unclosed)
    obtain ⟨⟨rest, whole⟩, span, line⟩ := standing.piece
    -- The whole text from the word `model` on.
    refine ⟨⟨front, keyword.text.toList ++ rest, ⟨[], ?_⟩, ?_, line⟩, nofun, False.elim⟩
    · rw [List.append_nil, ← List.append_assoc, whole]
    · simp only [Error.span, span, Span.over, ← List.append_assoc, whole]

/-- What is found in a text is found where it stands. -/
theorem parse_points (source : String) :
    (∀ e, parse source = .error e → e.Points source ∧
      e.span.start ≤ e.span.stop ∧ e.span.stop ≤ Text.byteLength source.toList) ∧
    ∀ r, parse source = .ok r → ∀ w ∈ r.warnings,
      (∃ before text, Piece source.toList before text w.line w.span) ∧
      w.span.start ≤ w.span.stop ∧ w.span.stop ≤ Text.byteLength source.toList := by
  constructor
  · intro e h
    have points : e.Points source := by
      rcases fault_of_parse h with h | ⟨tokens, tokenized, fault⟩
      · obtain ⟨before, text, cut⟩ :=
          (tiling_scan source).cut_of_error (Token.tokenize_eq_error_iff.mp h)
        exact cut.points
      · exact fault.points (Token.tiling_of_tokenize tokenized)
    obtain ⟨before, text, piece⟩ := points.piece
    exact ⟨points, piece.bounds⟩
  · intro r h w hw
    obtain ⟨tokens, tokenized, warned⟩ := isAt_of_parse h
    obtain ⟨t, ht, line, span⟩ := warned w hw
    obtain ⟨before, standing⟩ := (Token.tiling_of_tokenize tokenized).standing_of_mem ht
    rw [line, span]
    exact ⟨⟨before, _, standing.piece⟩, standing.piece.bounds⟩

end SchemaPlan.Source
