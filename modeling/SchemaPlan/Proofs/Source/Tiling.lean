import Mathlib.Data.List.DropRight
import SchemaPlan.Proofs.Source.Position
import SchemaPlan.Proofs.Source.TokenText

/-!
# Tokens tile the text

A scan goes through the text from its start without leaving anything out. Between two tokens stand
blanks and comments only, and every token carries the place that the text before it gives.
-/

namespace SchemaPlan.Source

/-- Not the two halves of one line break. -/
def Apart (cs ds : List Char) : Prop := cs.getLast? = some '\r' → ds.head? ≠ some '\n'

theorem apart_of_unbroken {cs : List Char} (h : ∀ c ∈ cs, ¬ isLineBreak c) (ds : List Char) :
    Apart cs ds :=
  fun last => absurd (show isLineBreak '\r' by decide) (h _ (List.mem_of_getLast? last))

theorem Apart.append {before text rest : List Char} (h : Apart text rest) (solid : text ≠ []) :
    Apart (before ++ text) rest := by
  unfold Apart
  rwa [List.getLast?_append_of_ne_nil _ solid]

theorem Apart.tail {c : Char} {cs ds : List Char} (h : Apart (c :: cs) ds) : Apart cs ds :=
  fun last => h (by simp [List.getLast?_cons, last])

/-- A character that is not the first half of a line break is none when more follows. -/
theorem Apart.unpaired {c : Char} {cs ds : List Char} (h : Apart (c :: cs) ds)
    (pair : ∀ more, c = '\r' → cs ≠ '\n' :: more) : ∀ more, c = '\r' → cs ++ ds ≠ '\n' :: more := by
  rintro more rfl whole
  cases cs with
  | nil => exact h rfl (by simpa using congrArg List.head? whole)
  | cons d cs => exact pair cs rfl (by rw [(List.cons.inj whole).1])

theorem lineBreaks_append_apart {cs ds : List Char} (apart : Apart cs ds) :
    lineBreaks (cs ++ ds) = lineBreaks cs + lineBreaks ds := by
  fun_induction lineBreaks cs with
  | case1 => simp
  | case2 cs ih =>
    rw [List.cons_append, List.cons_append, lineBreaks, ih apart.tail.tail]
    omega
  | case3 c cs pair ih =>
    rw [List.cons_append, lineBreaks, ih apart.tail]
    · omega
    · exact apart.unpaired pair

/-- The text after the last line break. -/
def lastLine (cs : List Char) : List Char := cs.rtakeWhile (!isLineBreak ·)

theorem lastLine_append {text : List Char} (h : ∀ c ∈ text, ¬ isLineBreak c) (before : List Char) :
    lastLine (before ++ text) = lastLine before ++ text := by
  have inside : ∀ c ∈ text.reverse, (!isLineBreak c) = true := by simpa using h
  rw [lastLine, List.rtakeWhile, List.reverse_append, List.takeWhile_append_of_pos inside,
    List.reverse_append, List.reverse_reverse]
  rfl

theorem lastLine_append_break {b : Char} (h : isLineBreak b) (before : List Char) :
    lastLine (before ++ [b]) = [] := List.rtakeWhile_concat_neg _ _ _ (by simpa using h)

/-- The place at the end of a text. -/
def Place.behind (cs : List Char) : Place :=
  ⟨Text.byteLength cs, lineBreaks cs + 1, (lastLine cs).length + 1⟩

/-- A line break is a lexeme of its own, and holds a line feed that follows a carriage return. -/
theorem first_lineBreak {c : Char} (h : isLineBreak c) (cs : List Char) :
    ∃ before b, (Lexeme.first c cs).1 = .token .newline (before ++ [b]) ∧ isLineBreak b ∧
      lineBreaks (before ++ [b]) = 1 ∧ Apart (before ++ [b]) (Lexeme.first c cs).2 := by
  rcases eq_of_isLineBreak h with rfl | rfl
  · by_cases feed : cs.head? = some '\n'
    · obtain ⟨more, rfl⟩ := List.head?_eq_some_iff.mp feed
      exact ⟨['\r'], '\n', rfl, rfl, rfl, fun last => absurd last (by decide)⟩
    · rw [Lexeme.first_return feed]
      exact ⟨[], '\r', rfl, rfl, rfl, fun _ => feed⟩
  · exact ⟨[], '\n', rfl, rfl, rfl, fun last => absurd last (by decide)⟩

theorem Apart.left {before text rest : List Char} (h : Apart before (text ++ rest))
    (solid : text ≠ []) :
    Apart before text := by
  intro last
  rw [← List.head?_append_of_ne_nil _ solid]
  exact h last

theorem Place.after_behind {before : List Char} {c : Char} {cs : List Char}
    (apart : Apart before (c :: cs)) :
    (behind before).after (Lexeme.first c cs).1 = behind (before ++ (Lexeme.first c cs).1.text) ∧
      Apart (before ++ (Lexeme.first c cs).1.text) (Lexeme.first c cs).2 := by
  have solid := Lexeme.first_text_ne_nil c cs
  rw [← Lexeme.first_append c cs] at apart
  have lines := lineBreaks_append_apart (apart.left solid)
  by_cases lineBreak : isLineBreak c
  · obtain ⟨front, b, first, hb, one, apart'⟩ := first_lineBreak lineBreak cs
    rw [first] at solid lines ⊢
    refine ⟨?_, apart'.append solid⟩
    have ends : lastLine (before ++ (front ++ [b])) = [] := by
      rw [← List.append_assoc, lastLine_append_break hb]
    simp only [Lexeme.token] at lines ⊢
    simp only [behind, after, lines, one, ends, Text.byteLength_append, List.length_nil]
  · obtain ⟨other, unbroken⟩ := Lexeme.first_unbroken cs lineBreak
    refine ⟨?_, (apart_of_unbroken unbroken _).append solid⟩
    have none : lineBreaks (Lexeme.first c cs).1.text = 0 := by
      simpa [lineBreaks] using lineBreaks_append unbroken []
    rw [after_of_not_isLineBreak _ other, behind, behind, lines, none, lastLine_append unbroken]
    simp only [Text.byteLength_append, List.length_append, Nat.add_right_comm, Nat.add_zero]

/-- Blanks, and after them a comment that stops before the next line break. -/
inductive Gap : List Char → List Char → Prop
  | blank {cs rest} : (∀ c ∈ cs, isSpacing c) → Gap cs rest
  | comment {cs line rest} : (∀ c ∈ cs, isSpacing c) → (∀ c ∈ line, ¬ isLineBreak c) →
      (∀ c ∈ rest.head?, isLineBreak c) → Gap (cs ++ '#' :: line) rest

namespace Gap

variable {gap text rest : List Char}

theorem not_isLineBreak_of_isSpacing {c : Char} (h : isSpacing c) : ¬ isLineBreak c := by
  intro lineBreak
  rcases eq_of_isLineBreak lineBreak with rfl | rfl <;> exact absurd h (by decide)

theorem unbroken (h : Gap gap rest) : ∀ c ∈ gap, ¬ isLineBreak c := by
  cases h with
  | blank spacing => exact fun c hc => not_isLineBreak_of_isSpacing (spacing c hc)
  | comment spacing line =>
    refine List.forall_mem_append.mpr ⟨fun c hc => not_isLineBreak_of_isSpacing (spacing c hc), ?_⟩
    exact List.forall_mem_cons.mpr ⟨by decide, line⟩

/-- Nothing but a line break follows a comment. -/
theorem spacing {c : Char} {cs : List Char} (h : Gap gap (c :: cs)) (other : ¬ isLineBreak c) :
    ∀ d ∈ gap, isSpacing d := by
  cases h with
  | blank spacing => exact spacing
  | comment _ _ stop => exact absurd (stop c rfl) other

/-- A gap goes on to the next text that is neither a blank nor a comment. -/
theorem eq_nil_of_append {more : List Char} (h : Gap gap (more ++ rest))
    (h' : Gap (gap ++ more) rest)
    (start : ∀ c ∈ more.head?, ¬ isSpacing c ∧ c ≠ '#') : more = [] := by
  cases more with
  | nil => rfl
  | cons c more =>
    exfalso
    obtain ⟨solid, hash⟩ := start c rfl
    have blank := h.spacing (h'.unbroken c (by simp))
    generalize whole : gap ++ c :: more = cs at h'
    cases h' with
    | blank all => exact solid (all c (by simp [← whole]))
    | comment all =>
      -- The first character that is no blank starts both what is added and the comment.
      have same := congrArg (List.dropWhile isSpacing) whole
      rw [dropWhile_append_stop blank (by simpa using solid),
        dropWhile_append_stop all (by simp; decide)] at same
      exact hash (List.cons.inj same).1

theorem unique {gap' rest' : List Char} (h : Gap gap rest) (h' : Gap gap' rest')
    (start : ∀ c ∈ rest.head?, ¬ isSpacing c ∧ c ≠ '#')
    (start' : ∀ c ∈ rest'.head?, ¬ isSpacing c ∧ c ≠ '#')
    (same : gap ++ rest = gap' ++ rest') : gap = gap' ∧ rest = rest' := by
  have head {more rest : List Char} (h : ∀ c ∈ (more ++ rest).head?, ¬ isSpacing c ∧ c ≠ '#') :
      ∀ c ∈ more.head?, ¬ isSpacing c ∧ c ≠ '#' := by
    cases more with
    | nil => simp
    | cons c more => exact h
  rcases List.append_eq_append_iff.mp same with ⟨more, rfl, rfl⟩ | ⟨more, rfl, rfl⟩
  · obtain rfl := h.eq_nil_of_append h' (head start)
    simp
  · obtain rfl := h'.eq_nil_of_append h (head start')
    simp

theorem append_blank (h : Gap gap (text ++ rest)) (solid : text ≠ [])
    (blank : ∀ c ∈ text, isSpacing c) :
    Gap (gap ++ text) rest := by
  obtain ⟨c, text, rfl⟩ := List.exists_cons_of_ne_nil solid
  have other := not_isLineBreak_of_isSpacing (blank c List.mem_cons_self)
  exact .blank (List.forall_mem_append.mpr ⟨h.spacing other, blank⟩)

theorem append_comment (h : Gap gap ('#' :: text ++ rest)) (line : ∀ c ∈ text, ¬ isLineBreak c)
    (stop : ∀ c ∈ rest.head?, isLineBreak c) : Gap (gap ++ '#' :: text) rest :=
  .comment (h.spacing (by decide)) line stop

end Gap

/-- No longer text is cut off in one piece. -/
def Longest (text rest : List Char) : Prop :=
  ∀ other, TokenLike other → other <+: text ++ rest → other.length ≤ text.length

/-- The span of a text that stands behind another. -/
def Span.over (before text : List Char) : Span :=
  ⟨Text.byteLength before, Text.byteLength (before ++ text)⟩

@[simp] theorem Span.start_over (before text : List Char) :
    (Span.over before text).start = Text.byteLength before := rfl

@[simp] theorem Span.stop_over (before text : List Char) :
    (Span.over before text).stop = Text.byteLength before + Text.byteLength text :=
  Text.byteLength_append before text

theorem Place.spanTo_behind (before : List Char) (l : Lexeme) :
    (behind before).spanTo l = .over before l.text := by
  rw [spanTo, Span.over, Text.byteLength_append]
  rfl

/-- A scan of the rest of a text, of which some has been passed. -/
inductive Tiling : List Char → List Char → Scan → Prop
  | done {before gap} : Gap gap [] → Tiling before gap ⟨[], none⟩
  | token {before gap text rest kind tokens error?} : Gap gap (text ++ rest) → TokenText kind text →
      Longest text rest → Tiling (before ++ gap ++ text) rest ⟨tokens, error?⟩ →
      Tiling before (gap ++ text ++ rest)
        ⟨⟨kind, .over (before ++ gap) text, .ofList text, lineBreaks (before ++ gap) + 1,
          (lastLine (before ++ gap)).length + 1⟩ :: tokens, error?⟩
  | cut {before gap text rest} : Gap gap (text ++ rest) → CutText text → Longest text rest →
      Tiling before (gap ++ text ++ rest)
        ⟨[], some (.unterminatedAttribute (lineBreaks (before ++ gap) + 1)
          ((lastLine (before ++ gap)).length + 1) (.ofList text) (.over (before ++ gap) text))⟩

theorem TokenLike.start_append {text : List Char} (h : TokenLike text) (rest : List Char) :
    ∀ c ∈ (text ++ rest).head?, ¬ isSpacing c ∧ c ≠ '#' := by
  rw [List.head?_append_of_ne_nil _ h.ne_nil]
  exact h.start

section Unique

variable {gap gap' text text' rest rest' : List Char}

theorem not_gap_of_tokenLike (blank : Gap gap []) (blank' : Gap gap' (text ++ rest))
    (like : TokenLike text) : gap ≠ gap' ++ text ++ rest := by
  intro same
  rw [List.append_assoc] at same
  obtain ⟨-, none⟩ := blank.unique blank' (by simp) (like.start_append rest)
    ((List.append_nil gap).trans same)
  exact like.ne_nil (List.append_eq_nil_iff.mp none.symm).1

theorem Longest.unique (longest : Longest text rest) (longest' : Longest text' rest')
    (like : TokenLike text) (like' : TokenLike text')
    (blank : Gap gap (text ++ rest)) (blank' : Gap gap' (text' ++ rest'))
    (same : gap ++ text ++ rest = gap' ++ text' ++ rest') :
    gap = gap' ∧ text = text' ∧ rest = rest' := by
  rw [List.append_assoc, List.append_assoc] at same
  obtain ⟨rfl, whole⟩ :=
    blank.unique blank' (like.start_append rest) (like'.start_append rest') same
  have le := longest' text like (whole ▸ List.prefix_append ..)
  have ge := longest text' like' (whole ▸ List.prefix_append ..)
  exact ⟨rfl, List.append_inj whole (Nat.le_antisymm le ge)⟩

end Unique

/-- A text is tiled in one way. -/
theorem Tiling.unique {before rest : List Char} {scan scan' : Scan} (h : Tiling before rest scan)
    (h' : Tiling before rest scan') : scan = scan' := by
  generalize same : rest = rest' at h'
  induction h generalizing rest' scan' with
  | done blank =>
    cases h' with
    | done => rfl
    | token blank' spelt' =>
      exact absurd same (not_gap_of_tokenLike blank blank' (.inl ⟨_, spelt'⟩))
    | cut blank' cut' => exact absurd same (not_gap_of_tokenLike blank blank' (.inr cut'))
  | token blank spelt longest _ ih =>
    cases h' with
    | done blank' => exact absurd same.symm (not_gap_of_tokenLike blank' blank (.inl ⟨_, spelt⟩))
    | token blank' spelt' longest' tiling' =>
      obtain ⟨rfl, rfl, rfl⟩ :=
        longest.unique longest' (.inl ⟨_, spelt⟩) (.inl ⟨_, spelt'⟩) blank blank' same
      cases ih _ rfl tiling'
      cases spelt.unique spelt'
      rfl
    | cut blank' cut' longest' =>
      obtain ⟨-, rfl, -⟩ := longest.unique longest' (.inl ⟨_, spelt⟩) (.inr cut') blank blank' same
      exact absurd cut' spelt.not_cutText
  | cut blank cut longest =>
    cases h' with
    | done blank' => exact absurd same.symm (not_gap_of_tokenLike blank' blank (.inr cut))
    | token blank' spelt' longest' =>
      obtain ⟨-, rfl, -⟩ := longest.unique longest' (.inr cut) (.inl ⟨_, spelt'⟩) blank blank' same
      exact absurd cut spelt'.not_cutText
    | cut blank' cut' longest' =>
      obtain ⟨rfl, rfl, rfl⟩ := longest.unique longest' (.inr cut) (.inr cut') blank blank' same
      rfl

theorem tiling_ofLexemes {before gap cs : List Char} (hgap : Gap gap cs)
    (apart : Apart (before ++ gap) cs) :
    Tiling before (gap ++ cs) (Token.ofLexemes (.behind (before ++ gap)) (Lexeme.scan cs)) := by
  fun_induction Lexeme.scan cs generalizing before gap with
  | case1 =>
    rw [List.append_nil]
    exact .done hgap
  | case2 c cs ih =>
    have leads := leads_first c cs
    have whole := Lexeme.first_append c cs
    have solid := Lexeme.first_text_ne_nil c cs
    have longest : Longest (Lexeme.first c cs).1.text (Lexeme.first c cs).2 :=
      fun other h starts => length_le_first h (whole ▸ starts)
    obtain ⟨place, apart'⟩ := Place.after_behind apart
    generalize Lexeme.first c cs = step at *
    obtain ⟨lexeme, rest⟩ := step
    rw [← whole] at hgap ⊢
    rw [← List.append_assoc]
    cases leads with
    | blank spacing =>
      have tiled := ih (hgap.append_blank solid spacing) (List.append_assoc .. ▸ apart')
      simpa only [Token.ofLexemes, place, List.append_assoc] using tiled
    | comment inside stop =>
      have tiled := ih (hgap.append_comment inside stop) (List.append_assoc .. ▸ apart')
      simpa only [Token.ofLexemes, place, List.append_assoc] using tiled
    | @token kind text _ h =>
      have tiled : Tiling (before ++ gap ++ text) ([] ++ rest)
          (Token.ofLexemes (.behind (before ++ gap ++ text ++ [])) (Lexeme.scan rest)) :=
        ih (.blank (by simp)) (by simpa using apart')
      rw [List.append_nil, List.nil_append, ← place] at tiled
      simp only [Token.ofLexemes, h.not_isUnterminated, Bool.false_eq_true, if_false,
        Place.spanTo_behind]
      exact .token hgap h longest tiled
    | cut h =>
      simp only [Token.ofLexemes, h.isUnterminated, if_true, Place.spanTo_behind]
      exact .cut hgap h longest

/-- A scan leaves nothing out. -/
theorem tiling_scan (source : String) : Tiling [] source.toList (Token.scan source) := by
  have start : Gap [] source.toList := .blank (by simp)
  have apart : Apart ([] ++ []) source.toList := apart_of_unbroken (by simp) _
  exact tiling_ofLexemes start apart

/-- A part of a source and the text before it, with the line it starts on and the span it covers. -/
structure Piece (source before text : List Char) (line : Nat) (span : Span) : Prop where
  inside : before ++ text <+: source
  span_eq : span = .over before text
  line_eq : line = lineBreaks before + 1

theorem Piece.bounds {source before text : List Char} {line : Nat} {span : Span}
    (h : Piece source before text line span) :
    span.start ≤ span.stop ∧ span.stop ≤ Text.byteLength source := by
  obtain ⟨⟨rest, rfl⟩, rfl, -⟩ := h
  simp

theorem Piece.slice {source : String} {before text : List Char} {line : Nat} {span : Span}
    (h : Piece source.toList before text line span) : span.slice source = .ofList text := by
  obtain ⟨⟨rest, whole⟩, rfl, -⟩ := h
  have length : (Span.over before text).length = Text.byteLength text := by simp [Span.length]
  rw [Span.slice, length, ← whole, List.append_assoc, Span.start_over,
    Text.dropBytes_byteLength_append, Text.takeBytes_byteLength_append]

/-- A token says where its text stands, and what it is. -/
structure Token.Standing (source before : List Char) (t : Token) : Prop where
  piece : Piece source before t.text.toList t.line t.span
  column : t.column = (lastLine before).length + 1
  text : TokenText t.kind t.text.toList

/-- The error of a scan tells of a tag that is cut short, and says where it stands. -/
structure Error.Cut (source before text : List Char) (e : Error) : Prop where
  piece : Piece source before text e.line e.span
  cut : CutText text
  error : e = .unterminatedAttribute e.line ((lastLine before).length + 1) (.ofList text) e.span

namespace Tiling

variable {before rest : List Char} {scan : Scan}

theorem standing (h : Tiling before rest scan) {t : Token} (ht : t ∈ scan.tokens) :
    ∃ front, before <+: front ∧ t.Standing (before ++ rest) front := by
  induction h with
  | done => cases ht
  | cut => cases ht
  | @token before gap text rest _ _ _ _ h _ _ ih =>
    rw [List.append_assoc gap, ← List.append_assoc before, ← List.append_assoc (before ++ gap)]
    rcases List.mem_cons.mp ht with rfl | ht
    · refine ⟨before ++ gap, List.prefix_append .., ?_, rfl, by simpa using h⟩
      simp only [String.toList_ofList]
      exact ⟨List.prefix_append .., rfl, rfl⟩
    · obtain ⟨front, starts, standing⟩ := ih ht
      rw [List.append_assoc] at starts
      exact ⟨front, (List.prefix_append ..).trans starts, standing⟩

theorem pairwise (h : Tiling before rest scan) :
    scan.tokens.Pairwise fun t u => t.span.stop ≤ u.span.start := by
  induction h with
  | done => exact .nil
  | cut => exact .nil
  | token _ _ _ tiling ih =>
    refine .cons (fun u hu => ?_) ih
    obtain ⟨front, ⟨more, rfl⟩, standing⟩ := tiling.standing hu
    simp only [standing.piece.span_eq, Span.stop_over, Span.start_over, Text.byteLength_append]
    omega

theorem cut_of_error (h : Tiling before rest scan) {e : Error} (he : scan.error? = some e) :
    ∃ front text, e.Cut (before ++ rest) front text := by
  induction h with
  | done => cases he
  | @cut before gap text rest _ h _ =>
    cases he
    exact ⟨before ++ gap, text, ⟨by simp, rfl, rfl⟩, h, rfl⟩
  | token _ _ _ _ ih => simpa [List.append_assoc] using ih he

end Tiling

theorem Token.tiling_of_tokenize {source : String} {tokens : List Token}
    (tokenized : tokenize source = .ok tokens) : Tiling [] source.toList ⟨tokens, none⟩ := by
  obtain ⟨clean, rfl⟩ := tokenize_eq_ok_iff.mp tokenized
  exact clean ▸ tiling_scan source

/-- The tokens of a text are those that tile it to its end. -/
theorem Token.tokenize_eq_ok_iff_tiling {source : String} {tokens : List Token} :
    tokenize source = .ok tokens ↔ Tiling [] source.toList ⟨tokens, none⟩ := by
  refine ⟨tiling_of_tokenize, fun tiling => ?_⟩
  have same := tiling.unique (tiling_scan source)
  exact tokenize_eq_ok_iff.mpr ⟨by rw [← same], by rw [← same]⟩

/-- What a scan says of a text. -/
structure Tiles (source : String) (scan : Scan) : Prop where
  tiling : Tiling [] source.toList scan
  /-- No other scan leaves nothing out and always takes the longest text. -/
  unique : ∀ other, Tiling [] source.toList other → other = scan
  /-- Nothing but a tag that is cut short ends a scan. -/
  error : ∀ e, scan.error? = some e → ∃ before text, e.Cut source.toList before text
  token : ∀ t ∈ scan.tokens, ∃ before, t.Standing source.toList before
  slice : ∀ t ∈ scan.tokens, t.span.slice source = t.text ∧ t.span.start < t.span.stop
  disjoint : scan.tokens.Pairwise fun t u => t.span.stop ≤ u.span.start
  /-- The text of a token tells its kind. -/
  kind : ∀ t ∈ scan.tokens, ∀ kind, TokenText kind t.text.toList ↔ kind = t.kind

/-- Tokens tile the text. -/
theorem tiles_scan (source : String) : Tiles source (Token.scan source) := by
  have tiling := tiling_scan source
  have standing {t : Token} (ht : t ∈ (Token.scan source).tokens) :
      ∃ before, t.Standing source.toList before := by
    obtain ⟨front, -, standing⟩ := tiling.standing ht
    exact ⟨front, standing⟩
  constructor
  case tiling => exact tiling
  case unique =>
    intro other h
    exact h.unique tiling
  case error =>
    intro e he
    exact tiling.cut_of_error he
  case token =>
    intro t ht
    exact standing ht
  case slice =>
    intro t ht
    obtain ⟨front, placed⟩ := standing ht
    refine ⟨by rw [placed.piece.slice, String.ofList_toList], ?_⟩
    simpa [placed.piece.span_eq] using Text.byteLength_pos placed.text.ne_nil
  case disjoint => exact tiling.pairwise
  case kind =>
    intro t ht kind
    obtain ⟨front, placed⟩ := standing ht
    constructor
    · intro h
      exact h.unique placed.text
    · rintro rfl
      exact placed.text

end SchemaPlan.Source
