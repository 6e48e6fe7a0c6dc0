import SchemaPlan.Proofs.Source.Likeness
import SchemaPlan.Proofs.Source.Pointing

/-!
# Line endings

How the lines of a text end does not matter. With a line feed for every line break, the same tokens
stand on the same lines and in the same columns, and the text is read alike, up to spans.
-/

namespace SchemaPlan.Source

/-- A text with a line feed for each of its line breaks. -/
def lineFeeds : List Char → List Char
  | [] => []
  | '\r' :: '\n' :: cs => '\n' :: lineFeeds cs
  | c :: cs => (if isLineBreak c then '\n' else c) :: lineFeeds cs

def withLineFeeds (s : String) : String := .ofList (lineFeeds s.toList)

theorem lineFeeds_cons {c : Char} (h : ¬ isLineBreak c) (cs : List Char) :
    lineFeeds (c :: cs) = c :: lineFeeds cs := by
  have notReturn : c ≠ '\r' := by
    rintro rfl
    exact h rfl
  simp [lineFeeds, h, notReturn]

theorem lineFeeds_append_unbroken {cs : List Char} (h : ∀ c ∈ cs, ¬ isLineBreak c)
    (ds : List Char) : lineFeeds (cs ++ ds) = cs ++ lineFeeds ds := by
  induction cs with
  | nil => rfl
  | cons c cs ih =>
    obtain ⟨head, tail⟩ := List.forall_mem_cons.mp h
    rw [List.cons_append, lineFeeds_cons head, ih tail, List.cons_append]

theorem lineFeeds_of_unbroken {cs : List Char} (h : ∀ c ∈ cs, ¬ isLineBreak c) :
    lineFeeds cs = cs := by
  have whole := lineFeeds_append_unbroken h []
  rwa [List.append_nil, lineFeeds, List.append_nil] at whole

theorem lineFeeds_append {cs ds : List Char} (apart : Apart cs ds) :
    lineFeeds (cs ++ ds) = lineFeeds cs ++ lineFeeds ds := by
  fun_induction lineFeeds cs with
  | case1 => rfl
  | case2 cs ih =>
    rw [List.cons_append, List.cons_append, lineFeeds, ih apart.tail.tail, List.cons_append]
  | case3 c cs pair ih =>
    rw [List.cons_append, lineFeeds, ih apart.tail, List.cons_append]
    exact apart.unpaired pair

namespace Lexeme

/-- A lexeme with a line feed if it is a line break. -/
def lineFeed (l : Lexeme) : Lexeme := if l.IsLineBreak then token .newline ['\n'] else l

@[simp] theorem lineFeed_newline (text : List Char) :
    (token .newline text).lineFeed = token .newline ['\n'] := if_pos rfl

theorem lineFeed_of_not_isLineBreak {l : Lexeme} (h : ¬ l.IsLineBreak) : l.lineFeed = l := if_neg h

/-- The spellings of a line break. -/
theorem first_break {b : Char} (h : isLineBreak b) (cs : List Char) :
    ∃ text, (first b cs).1 = token .newline text ∧ lineFeeds text = ['\n'] ∧
      lineFeeds (b :: cs) = '\n' :: lineFeeds (first b cs).2 := by
  rcases eq_of_isLineBreak h with rfl | rfl
  · by_cases feed : cs.head? = some '\n'
    · obtain ⟨more, rfl⟩ := List.head?_eq_some_iff.mp feed
      exact ⟨['\r', '\n'], rfl, rfl, rfl⟩
    · rw [first_return feed]
      refine ⟨['\r'], rfl, rfl, ?_⟩
      have alone : ∀ more, cs ≠ '\n' :: more := by
        rintro more rfl
        exact feed rfl
      simp [lineFeeds, alone, show isLineBreak '\r' = true from rfl]
  · exact ⟨['\n'], rfl, rfl, rfl⟩

theorem lineFeeds_text_first (c : Char) (cs : List Char) :
    lineFeeds (first c cs).1.text = (first c cs).1.lineFeed.text := by
  by_cases h : isLineBreak c
  · obtain ⟨text, first, feed, -⟩ := first_break h cs
    rw [first, lineFeed_newline]
    exact feed
  · obtain ⟨other, unbroken⟩ := first_unbroken cs h
    rw [lineFeed_of_not_isLineBreak other, lineFeeds_of_unbroken unbroken]

theorem not_isLineBreak_of_mem_scan {cs : List Char} (h : ∀ c ∈ cs, ¬ isLineBreak c) :
    ∀ l ∈ scan cs, ¬ l.IsLineBreak := by
  fun_induction scan cs with
  | case1 => simp
  | case2 c cs ih =>
    obtain ⟨other, -⟩ := first_unbroken cs (h c List.mem_cons_self)
    rw [← first_append c cs] at h
    exact List.forall_mem_cons.mpr ⟨other, ih fun d hd => h d (List.mem_append_right _ hd)⟩

/-- The lexemes stay, but for the spelling of line breaks. -/
theorem scan_lineFeeds (cs : List Char) : scan (lineFeeds cs) = (scan cs).map lineFeed := by
  -- Up to the first line break nothing changes, and no lexeme reaches across it.
  have start : ∀ c ∈ cs.takeWhile (!isLineBreak ·), ¬ isLineBreak c := by
    intro c hc
    simpa using List.mem_takeWhile_imp hc
  have same : (scan (cs.takeWhile (!isLineBreak ·))).map lineFeed =
      scan (cs.takeWhile (!isLineBreak ·)) := by
    refine (List.map_congr_left fun l hl => ?_).trans (List.map_id _)
    exact lineFeed_of_not_isLineBreak (not_isLineBreak_of_mem_scan start l hl)
  have whole := List.takeWhile_append_dropWhile (p := (!isLineBreak ·)) (l := cs)
  have next := head?_dropWhile (p := (!isLineBreak ·)) cs
  revert start same whole next
  generalize cs.takeWhile (!isLineBreak ·) = line
  cases cs.dropWhile (!isLineBreak ·) with
  | nil =>
    rintro start same rfl -
    rw [List.append_nil, lineFeeds_of_unbroken start, same]
  | cons b more =>
    intro start same whole next
    have lineBreak : isLineBreak b := by simpa using next b rfl
    obtain ⟨text, first, -, feeds⟩ := first_break lineBreak more
    have apart : ∀ {d : Char}, line.getLast? = some '\r' → d ≠ '\n' := fun last =>
      absurd (show isLineBreak '\r' from rfl) (start _ (List.mem_of_getLast? last))
    have shorter : (Lexeme.first b more).2.length < cs.length := by
      have := length_first_rest b more
      rw [← whole, List.length_append]
      omega
    have feed : Lexeme.first '\n' (lineFeeds (Lexeme.first b more).2) =
        (token .newline ['\n'], lineFeeds (Lexeme.first b more).2) := rfl
    have later := scan_lineFeeds (Lexeme.first b more).2
    rw [← whole, lineFeeds_append_unbroken start, feeds,
      scan_append_break (by decide) _ apart, scan_append_break lineBreak _ apart,
      List.map_append, same, scan_cons, scan_cons, feed, later, List.map_cons, first,
      lineFeed_newline]
termination_by cs.length

end Lexeme

/-- The same token, but for the spelling of line breaks and for where it stands in bytes. -/
structure Token.Counterpart (t u : Token) : Prop where
  kind : t.kind = u.kind
  text : t.kind ≠ .newline → t.text = u.text
  line : t.line = u.line
  column : t.column = u.column

/-- Offsets of one place in a text and in the text with line feeds. -/
def Carries (cs : List Char) (offset offset' : Nat) : Prop :=
  ∃ before after, before ++ after = cs ∧ Apart before after ∧
    offset = Text.byteLength before ∧ offset' = Text.byteLength (lineFeeds before)

/-- A token of a text, and what it is in the text with line feeds. -/
structure Token.Carried (cs : List Char) (t u : Token) : Prop where
  counterpart : t.Counterpart u
  start : Carries cs t.span.start u.span.start
  stop : Carries cs t.span.stop u.span.stop

/-- The place behind a text, and the place behind the text with line feeds. -/
structure Place.Carried (before : List Char) (p q : Place) : Prop where
  offset : p.offset = Text.byteLength before
  offset' : q.offset = Text.byteLength (lineFeeds before)
  line : p.line = q.line
  column : p.column = q.column

namespace Place.Carried

variable {before : List Char} {p q : Place} {c : Char} {cs : List Char}

theorem offsets (h : Carried before p q) {after : List Char} (apart : Apart before after) :
    Carries (before ++ after) p.offset q.offset :=
  ⟨before, after, rfl, apart, h.offset, h.offset'⟩

theorem after_first (h : Carried before p q) (apart : Apart before (c :: cs)) :
    Carried (before ++ (Lexeme.first c cs).1.text) (p.after (Lexeme.first c cs).1)
      (q.after (Lexeme.first c cs).1.lineFeed) := by
  have left : Apart before (Lexeme.first c cs).1.text := by
    rw [← Lexeme.first_append c cs] at apart
    exact apart.left (Lexeme.first_text_ne_nil c cs)
  have text := Lexeme.lineFeeds_text_first c cs
  generalize (Lexeme.first c cs).1 = l at *
  have offset : (p.after l).offset = Text.byteLength (before ++ l.text) := by
    rw [offset_after, h.offset, Text.byteLength_append]
  have offset' : (q.after l.lineFeed).offset = Text.byteLength (lineFeeds (before ++ l.text)) := by
    rw [offset_after, h.offset', lineFeeds_append left, text, Text.byteLength_append]
  by_cases lineBreak : l.IsLineBreak
  · have feed : l.lineFeed.IsLineBreak := by
      rw [Lexeme.lineFeed, if_pos lineBreak]
      rfl
    refine ⟨offset, offset', ?_, ?_⟩
    · rw [line_after, line_after, if_pos lineBreak, if_pos feed, h.line]
    · rw [column_after lineBreak, column_after feed]
  · rw [Lexeme.lineFeed_of_not_isLineBreak lineBreak] at offset' ⊢
    refine ⟨offset, offset', ?_, ?_⟩
    · rw [line_after, line_after, h.line]
    · rw [after_of_not_isLineBreak p lineBreak, after_of_not_isLineBreak q lineBreak, h.column]

end Place.Carried

namespace Token

/-- A scan goes through both texts side by side. -/
theorem carried_ofLexemes {before cs : List Char} {p q : Place} (apart : Apart before cs)
    (h : Place.Carried before p q) :
    List.Forall₂ (Carried (before ++ cs)) (ofLexemes p (Lexeme.scan cs)).tokens
        (ofLexemes q ((Lexeme.scan cs).map Lexeme.lineFeed)).tokens ∧
      Option.Rel (fun e e' => e.seen .exact = e'.seen .exact)
        (ofLexemes p (Lexeme.scan cs)).error?
        (ofLexemes q ((Lexeme.scan cs).map Lexeme.lineFeed)).error? := by
  fun_induction Lexeme.scan cs generalizing before p q with
  | case1 => exact ⟨.nil, .none⟩
  | case2 c cs ih =>
    have start := h.offsets apart
    have next := h.after_first apart
    have apart' := (Place.after_behind apart).2
    have stop := next.offsets apart'
    have whole := Lexeme.first_append c cs
    have rest := ih apart' next
    rw [List.append_assoc, whole] at rest stop
    rw [Place.offset_after, Place.offset_after] at stop
    rw [List.map_cons]
    generalize (Lexeme.first c cs).1 = l at *
    generalize Lexeme.scan (Lexeme.first c cs).2 = ls at *
    by_cases lineBreak : l.IsLineBreak
    · obtain ⟨_, text⟩ := l
      cases lineBreak
      exact ⟨.cons ⟨⟨rfl, fun other => absurd rfl other, h.line, h.column⟩, start, stop⟩ rest.1,
        rest.2⟩
    · rw [Lexeme.lineFeed_of_not_isLineBreak lineBreak] at rest stop ⊢
      obtain ⟨kind, text⟩ := l
      cases kind with
      | blank => exact rest
      | comment => exact rest
      | token kind =>
        simp only [ofLexemes]
        split
        · exact ⟨.nil, .some (by simp only [Error.seen, h.line, h.column])⟩
        · exact ⟨.cons ⟨⟨rfl, fun _ => rfl, h.line, h.column⟩, start, stop⟩ rest.1, rest.2⟩

theorem carried_scan (source : String) :
    List.Forall₂ (Carried source.toList) (scan source).tokens
        (scan (withLineFeeds source)).tokens ∧
      Option.Rel (fun e e' => e.seen .exact = e'.seen .exact) (scan source).error?
        (scan (withLineFeeds source)).error? := by
  have apart : Apart [] source.toList := apart_of_unbroken (by simp) _
  have start : Place.Carried [] .start .start := ⟨rfl, rfl, rfl, rfl⟩
  have carried := carried_ofLexemes apart start
  rwa [List.nil_append, ← Lexeme.scan_lineFeeds, ← String.toList_ofList (l := lineFeeds _)]
    at carried

theorem carried_tokenize (source : String) :
    Agree .exact (List.Forall₂ (Carried source.toList)) (tokenize source)
      (tokenize (withLineFeeds source)) := by
  obtain ⟨tokens, error⟩ := carried_scan source
  unfold tokenize
  revert tokens error
  rcases scan source with ⟨ts, e⟩
  rcases scan (withLineFeeds source) with ⟨us, e'⟩
  rintro tokens (same | _)
  · exact .error same
  · exact .ok tokens

theorem Counterpart.alike {t u : Token} (h : t.Counterpart u) : t.Alike .exact u :=
  ⟨h.kind, h.text, h.line⟩

end Token

/-- Text on one line stays as it is. -/
theorem Piece.slice_withLineFeeds {source : String} {before text : List Char} {line : Nat}
    {span span' : Span} (piece : Piece source.toList before text line span)
    (unbroken : ∀ c ∈ text, ¬ isLineBreak c) (start : Carries source.toList span.start span'.start)
    (stop : Carries source.toList span.stop span'.stop) :
    span'.slice (withLineFeeds source) = span.slice source := by
  obtain ⟨⟨rest, whole⟩, rfl, -⟩ := id piece
  obtain ⟨front, back, split, apart, left, left'⟩ := start
  obtain ⟨front', back', split', apart', right, right'⟩ := stop
  rw [← whole, List.append_assoc] at split
  obtain ⟨rfl, rfl⟩ := Text.eq_of_byteLength_eq split left.symm
  rw [← whole] at split'
  obtain ⟨rfl, rfl⟩ := Text.eq_of_byteLength_eq split' right.symm
  have first : lineFeeds source.toList = lineFeeds front ++ (text ++ lineFeeds back') := by
    rw [← whole, List.append_assoc, lineFeeds_append apart, lineFeeds_append_unbroken unbroken]
  have second : lineFeeds source.toList = lineFeeds (front ++ text) ++ lineFeeds back' := by
    rw [← whole, lineFeeds_append apart']
  have covered : lineFeeds (front ++ text) = lineFeeds front ++ text := by
    rw [first, ← List.append_assoc] at second
    exact (List.append_cancel_right second).symm
  have covering : span' = .over (lineFeeds front) text := by
    rw [Span.over, ← covered, ← left', ← right']
  have inside : lineFeeds front ++ text <+: (withLineFeeds source).toList := by
    rw [withLineFeeds, String.toList_ofList, first, ← List.append_assoc]
    exact List.prefix_append ..
  have piece' : Piece (withLineFeeds source).toList (lineFeeds front) text
      (lineBreaks (lineFeeds front) + 1) span' := ⟨inside, covering, rfl⟩
  rw [piece'.slice, piece.slice]

/-- A line that errors quote reads the same in both texts. -/
theorem Block.quotedAlike_withLineFeeds {source : String} {ts us : List Token}
    (tokenized : Token.tokenize source = .ok ts)
    (tokenized' : Token.tokenize (withLineFeeds source) = .ok us) {b c : Block}
    (hb : b ∈ (Outline.ofTokens ts).blocks) (hc : c ∈ (Outline.ofTokens us).blocks) :
    b.QuotedAlike .exact source (withLineFeeds source) (Token.Carried source.toList) c := by
  intro l hl m hm row
  obtain ⟨-, -, inside⟩ := Outline.parts_of_mem_blocks hb
  obtain ⟨-, -, inside'⟩ := Outline.parts_of_mem_blocks hc
  obtain ⟨span, before, text, unbroken, piece⟩ :=
    Line.piece (Token.tiling_of_tokenize tokenized) inside (Line.isLine_of_mem_ofBody hl)
  obtain ⟨span', -⟩ :=
    Line.piece (Token.tiling_of_tokenize tokenized') inside' (Line.isLine_of_mem_ofBody hm)
  have last := forall₂_getLast row (by simp [Line.tokens]) (by simp [Line.tokens])
  obtain ⟨first, -⟩ := List.forall₂_cons.mp row
  refine (piece.slice_withLineFeeds unbroken ?_ ?_).symm
  · rw [span, span']
    exact first.start
  · rw [span, span']
    exact last.stop

/-- With line feeds for its line breaks, a text has the same tokens in the same places, up to spans,
and is read alike. -/
theorem parse_withLineFeeds (source : String) :
    List.Forall₂ Token.Counterpart (Token.scan source).tokens
        (Token.scan (withLineFeeds source)).tokens ∧
      Option.Rel (fun e e' => e.seen .exact = e'.seen .exact) (Token.scan source).error?
        (Token.scan (withLineFeeds source)).error? ∧
      Agree .exact (Declared.Alike .exact) (parse source) (parse (withLineFeeds source)) := by
  obtain ⟨tokens, error⟩ := Token.carried_scan source
  refine ⟨tokens.imp fun _ _ carried => carried.counterpart, error, ?_⟩
  apply parse_alike (fun _ _ carried => carried.counterpart.alike) (Token.carried_tokenize source)
  intro ts us tokenized tokenized' b hb c hc
  exact Block.quotedAlike_withLineFeeds tokenized tokenized' hb hc

end SchemaPlan.Source
