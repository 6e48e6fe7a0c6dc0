import SchemaPlan.Proofs.Source.Seam
import SchemaPlan.Proofs.Source.Tag

/-!
# Positions

The tokens of a text that follows another and a line feed are its own, further on by the length and
the lines of what stands before it.
-/

namespace SchemaPlan.Source

/-- The line breaks of a text. A carriage return and the line feed after it are one. -/
def lineBreaks : List Char → Nat
  | [] => 0
  | '\r' :: '\n' :: cs => lineBreaks cs + 1
  | c :: cs => lineBreaks cs + if isLineBreak c then 1 else 0

theorem lineBreaks_cons {c : Char} (h : ¬ isLineBreak c) (cs : List Char) :
    lineBreaks (c :: cs) = lineBreaks cs := by
  have notReturn : c ≠ '\r' := by
    rintro rfl
    exact h (by decide)
  simp [lineBreaks, h, notReturn]

theorem lineBreaks_append {cs : List Char} (h : ∀ c ∈ cs, ¬ isLineBreak c) (ds : List Char) :
    lineBreaks (cs ++ ds) = lineBreaks ds := by
  induction cs with
  | nil => rfl
  | cons c cs ih =>
    obtain ⟨head, tail⟩ := List.forall_mem_cons.mp h
    rw [List.cons_append, lineBreaks_cons head, ih tail]

theorem ArgumentText.unbroken {cs : List Char} (h : ArgumentText cs) : ∀ c ∈ cs, ¬ isLineBreak c := by
  have inner {cs : List Char} (h : ∀ c ∈ cs, isArgument c) : ∀ c ∈ '(' :: cs, ¬ isLineBreak c :=
    List.forall_mem_cons.mpr ⟨by decide, fun c hc => not_isLineBreak_of_isArgument (h c hc)⟩
  cases h with
  | absent => simp
  | cut h => exact inner h
  | closed h =>
    exact List.forall_mem_append.mpr ⟨inner h, List.forall_mem_singleton.mpr (by decide)⟩

namespace Lexeme

def IsLineBreak (l : Lexeme) : Prop := l.kind = .token .newline

instance (l : Lexeme) : Decidable l.IsLineBreak := inferInstanceAs (Decidable (_ = _))

/-- Only a line break starts a lexeme that holds one. -/
theorem first_unbroken {c : Char} (cs : List Char) (h : ¬ isLineBreak c) :
    ¬ (first c cs).1.IsLineBreak ∧ ∀ d ∈ (first c cs).1.text, ¬ isLineBreak d := by
  have whole := first_append c cs
  have formed := formed_first c cs
  generalize (first c cs).1 = l at whole formed
  cases formed with
  | blank spacing =>
    refine ⟨by simp [IsLineBreak], fun d hd lineBreak => ?_⟩
    have := spacing d hd
    rcases eq_of_isLineBreak lineBreak with rfl | rfl <;> exact absurd this (by decide)
  | comment line =>
    exact ⟨by simp [IsLineBreak], List.forall_mem_cons.mpr ⟨by decide, line⟩⟩
  | word name =>
    refine ⟨?_, unbroken_of_isIdentifier name⟩
    unfold IsLineBreak word token
    split <;> simp
  | lineBreak =>
    obtain ⟨rfl, -⟩ := List.cons.inj whole
    exact absurd (by decide) h
  | tag name arguments =>
    refine ⟨by simp [IsLineBreak, token], List.forall_mem_append.mpr ⟨?_, ?_⟩⟩
    · exact List.forall_mem_cons.mpr ⟨by decide, unbroken_of_isIdentifier name⟩
    · exact arguments.unbroken
  | @single d =>
    obtain ⟨rfl, -⟩ := List.cons.inj whole
    refine ⟨?_, by simpa [token] using h⟩
    simp only [IsLineBreak, token, LexemeKind.token.injEq, punctuation]
    split <;> first | decide | exact absurd (by decide) h

theorem lineBreaks_first (c : Char) (cs : List Char) :
    lineBreaks (c :: cs) =
      lineBreaks (first c cs).2 + if (first c cs).1.IsLineBreak then 1 else 0 := by
  by_cases h : isLineBreak c
  -- Whether a carriage return takes the next character along is decided alike on both sides.
  · rcases eq_of_isLineBreak h with rfl | rfl
    · cases cs with
      | nil => rfl
      | cons d cs =>
        by_cases feed : d = '\n'
        · subst feed
          rfl
        · have plain : first '\r' (d :: cs) = (token .newline ['\r'], d :: cs) :=
            first_return (by simpa using feed)
          simp [lineBreaks, plain, feed, IsLineBreak, token, show isLineBreak '\r' = true by decide]
    · rfl
  · obtain ⟨kind, text⟩ := first_unbroken cs h
    rw [if_neg kind, Nat.add_zero, ← lineBreaks_append text (first c cs).2, first_append]

end Lexeme

/-- By how much something stands further on in a text. Columns stay. -/
structure Shift where
  bytes : Nat
  lines : Nat

/-- How far a text is moved on by one that stands before it, on lines of its own. -/
def Shift.past (s : String) : Shift :=
  ⟨Text.byteLength s.toList + 1, lineBreaks (s.toList ++ ['\n'])⟩

def Span.shift (m : Shift) (s : Span) : Span := ⟨s.start + m.bytes, s.stop + m.bytes⟩

def Place.shift (m : Shift) (p : Place) : Place := ⟨p.offset + m.bytes, p.line + m.lines, p.column⟩

def Token.shift (m : Shift) (t : Token) : Token :=
  { t with span := t.span.shift m, line := t.line + m.lines }

@[simp] theorem Token.kind_shift (m : Shift) (t : Token) : (t.shift m).kind = t.kind := rfl

@[simp] theorem Token.text_shift (m : Shift) (t : Token) : (t.shift m).text = t.text := rfl

def Warning.shift (m : Shift) (w : Warning) : Warning :=
  { w with span := w.span.shift m, line := w.line + m.lines }

namespace Place

theorem after_shift (m : Shift) (p : Place) (l : Lexeme) :
    (p.shift m).after l = (p.after l).shift m := by
  unfold after
  split <;> simp only [shift, Nat.add_right_comm]

theorem spanTo_shift (m : Shift) (p : Place) (l : Lexeme) :
    (p.shift m).spanTo l = (p.spanTo l).shift m := by
  simp only [spanTo, shift, Span.shift, Nat.add_right_comm]

theorem offset_after (p : Place) (l : Lexeme) :
    (p.after l).offset = p.offset + Text.byteLength l.text := by
  unfold after
  split <;> rfl

theorem line_after (p : Place) (l : Lexeme) :
    (p.after l).line = p.line + if l.IsLineBreak then 1 else 0 := by
  unfold after
  split
  · next h => rw [if_pos (show l.IsLineBreak from h)]
  · next h => rw [if_neg (show ¬ l.IsLineBreak from h), Nat.add_zero]

theorem column_after {p : Place} {l : Lexeme} (h : l.IsLineBreak) : (p.after l).column = 1 := by
  unfold after
  rw [h]

theorem after_of_not_isLineBreak (p : Place) {l : Lexeme} (h : ¬ l.IsLineBreak) :
    p.after l = ⟨p.offset + Text.byteLength l.text, p.line, p.column + l.text.length⟩ := by
  unfold after
  split
  · next lineBreak => exact absurd lineBreak h
  · rfl

/-- Where the lexemes of a text end. -/
theorem foldl_after_scan (cs : List Char) (p : Place) :
    ((Lexeme.scan cs).foldl after p).offset = p.offset + Text.byteLength cs ∧
      ((Lexeme.scan cs).foldl after p).line = p.line + lineBreaks cs := by
  fun_induction Lexeme.scan cs generalizing p with
  | case1 => exact ⟨rfl, rfl⟩
  | case2 c cs ih =>
    obtain ⟨offset, line⟩ := ih (p.after (Lexeme.first c cs).1)
    have bytes := congrArg Text.byteLength (Lexeme.first_append c cs)
    rw [Text.byteLength_append] at bytes
    rw [List.foldl_cons, offset, line, offset_after, line_after, Lexeme.lineBreaks_first, ← bytes]
    exact ⟨Nat.add_assoc .., by omega⟩

end Place

namespace Token

theorem ofLexemes_shift (m : Shift) (p : Place) (ls : List Lexeme) :
    (ofLexemes (p.shift m) ls).tokens = (ofLexemes p ls).tokens.map (·.shift m) ∧
      ((ofLexemes (p.shift m) ls).error? = none ↔ (ofLexemes p ls).error? = none) := by
  induction ls generalizing p with
  | nil => exact ⟨rfl, Iff.rfl⟩
  | cons l ls ih =>
    have rest := ih (p.after l)
    rw [← Place.after_shift] at rest
    unfold ofLexemes
    split
    · exact rest
    · exact rest
    · split
      · exact ⟨rfl, by simp⟩
      · simp only [List.map_cons, rest.1]
        rw [Place.spanTo_shift]
        exact ⟨rfl, rest.2⟩

/-- An error ends the tokens, and lexemes after it do not change it. -/
theorem ofLexemes_append (p : Place) (ls ms : List Lexeme) :
    ofLexemes p (ls ++ ms) =
      match (ofLexemes p ls).error? with
      | none => ⟨(ofLexemes p ls).tokens ++ (ofLexemes (ls.foldl Place.after p) ms).tokens,
          (ofLexemes (ls.foldl Place.after p) ms).error?⟩
      | some _ => ofLexemes p ls := by
  induction ls generalizing p with
  | nil => rfl
  | cons l ls ih =>
    obtain ⟨kind, text⟩ := l
    cases kind with
    | blank => exact ih _
    | comment => exact ih _
    | token kind =>
      simp only [List.cons_append, ofLexemes]
      split
      · rfl
      · rw [ih]
        simp only [List.foldl_cons]
        split <;> rfl

theorem ofLexemes_lineBreaks {ls : List Lexeme} (h : ∀ l ∈ ls, l.IsLineBreak) (p : Place) :
    (ofLexemes p ls).error? = none ∧ ∀ t ∈ (ofLexemes p ls).tokens, t.kind = .newline := by
  induction ls generalizing p with
  | nil => exact ⟨rfl, by simp [ofLexemes]⟩
  | cons l ls ih =>
    obtain ⟨head, tail⟩ := List.forall_mem_cons.mp h
    obtain ⟨kind, text⟩ := l
    cases head
    obtain ⟨clean, breaks⟩ := ih tail (p.after (.token .newline text))
    exact ⟨clean, List.forall_mem_cons.mpr ⟨rfl, breaks⟩⟩

theorem place_past {s : String} {ls : List Lexeme} {lineFeed : Lexeme}
    (whole : Lexeme.scan (s.toList ++ ['\n']) = ls ++ [lineFeed]) (h : lineFeed.IsLineBreak) :
    (ls.foldl Place.after .start).after lineFeed = Place.start.shift (.past s) := by
  obtain ⟨offset, line⟩ := Place.foldl_after_scan (s.toList ++ ['\n']) .start
  rw [whole, List.foldl_append] at offset line
  have column := Place.column_after (p := ls.foldl Place.after .start) h
  generalize hp : (ls.foldl Place.after .start).after lineFeed = p at column
  simp only [List.foldl_cons, List.foldl_nil, hp] at offset line
  obtain ⟨_, _, _⟩ := p
  simp only [Text.byteLength_append] at offset
  cases offset
  cases line
  cases column
  rfl

/-- The scan of a text that a line feed and another text follow. At most the line breaks at the end of
the first are changed by the line feed. -/
theorem exists_scan_joined (s₁ : String) :
    (∀ e, (scan s₁).error? = some e → ∀ s₂, (scan (s₁ ++ "\n" ++ s₂)).error? = some e) ∧
      ((scan s₁).error? = none → ∃ ts ends lineFeed, (scan s₁).tokens = ts ++ ends ∧
        (∀ t ∈ ends, t.kind = .newline) ∧ lineFeed.kind = .newline ∧
        ∀ s₂, (scan (s₁ ++ "\n" ++ s₂)).tokens =
            ts ++ lineFeed :: (scan s₂).tokens.map (·.shift (.past s₁)) ∧
          ((scan (s₁ ++ "\n" ++ s₂)).error? = none ↔ (scan s₂).error? = none)) := by
  obtain ⟨ls, ends, lineFeed, whole, breaks, feed, joined⟩ := Lexeme.exists_scan_lineFeed s₁.toList
  have place := place_past (by simpa using joined []) feed
  obtain ⟨_, text⟩ := lineFeed
  cases feed
  generalize hp : ls.foldl Place.after .start = p at place
  obtain ⟨endsClean, endTokens⟩ := ofLexemes_lineBreaks breaks p
  have first : scan s₁ = ofLexemes .start (ls ++ ends) := congrArg _ whole
  have both (s₂ : String) : scan (s₁ ++ "\n" ++ s₂) =
      ofLexemes .start (ls ++ ⟨.token .newline, text⟩ :: Lexeme.scan s₂.toList) := by
    rw [← joined, scan, String.toList_append, String.toList_append, List.append_assoc]
    rfl
  rw [ofLexemes_append, hp] at first
  simp only [ofLexemes_append, hp] at both
  cases found : (ofLexemes .start ls).error? with
  | some e =>
    rw [found] at first both
    refine ⟨fun e' h s₂ => ?_, fun h => ?_⟩
    · rw [both, ← h, first]
    · rw [first, found] at h
      cases h
  | none =>
    rw [found] at first both
    refine ⟨fun e h => ?_, fun _ => ?_⟩
    · rw [first, endsClean] at h
      cases h
    rw [first]
    refine ⟨_, _, ⟨.newline, p.spanTo ⟨.token .newline, text⟩, .ofList text, p.line, p.column⟩, rfl,
      endTokens, rfl, fun s₂ => ?_⟩
    rw [both]
    obtain ⟨tokens, error⟩ := ofLexemes_shift (.past s₁) .start (Lexeme.scan s₂.toList)
    rw [← place] at tokens error
    exact ⟨congrArg (_ ++ _ :: ·) tokens, error⟩

end Token

end SchemaPlan.Source
