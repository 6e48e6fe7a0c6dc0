import SchemaPlan.Proofs.Source.Cursor
import SchemaPlan.Proofs.Source.Pointing

/-!
# The cursor never misses

The reader with a cursor reads every text as the reader of lists does, errors included. So no access
of it misses, no brace closes that was not opened, and the cursor always moves on.
-/

namespace SchemaPlan.Source

/-- The tokens of a scan that has come to the end of its text. -/
def Scan.result (scan : Scan) : Except Error (List Token) :=
  match scan.error? with
  | none => .ok scan.tokens
  | some e => .error e

theorem Scan.result_cons (t : Token) (scan : Scan) :
    Scan.result ⟨t :: scan.tokens, scan.error?⟩ = (scan.result).map (t :: ·) := by
  unfold result
  cases scan.error? <;> rfl

theorem Token.tokenize_eq_result (source : String) : tokenize source = (scan source).result := by
  unfold tokenize Scan.result
  rcases scan source with ⟨tokens, _ | e⟩ <;> rfl

namespace Cursor

variable {α β : Type}

theorem lift_map (x : Except Error α) (f : α → β) : lift (x.map f) = (lift x).map f := by
  cases x <;> rfl

theorem lift_bind (x : Except Error α) (f : α → Except Error β) :
    lift (x >>= f) = lift x >>= fun a => lift (f a) := by cases x <;> rfl

theorem lift_ok (a : α) : lift (.ok a) = .ok a := rfl

theorem splitBytes?_append (cs ds : List Char) :
    splitBytes? (Text.byteLength cs) (cs ++ ds) = some (cs, ds) := by
  induction cs with
  | nil => simp [splitBytes?]
  | cons c cs ih =>
    obtain ⟨n, hn⟩ := Nat.exists_eq_succ_of_ne_zero (Nat.ne_of_gt c.utf8Size_pos)
    have step : c.utf8Size + Text.byteLength cs = (n + Text.byteLength cs) + 1 := by omega
    rw [List.cons_append, Text.byteLength_cons, step, splitBytes?, ← step, Nat.add_sub_cancel_left,
      ih, if_pos (Nat.le_add_right ..)]
    rfl

theorem slice_over {source : String} {before text rest : List Char}
    (whole : source.toList = before ++ text ++ rest) :
    slice source (.over before text) = .ok (.ofList text) := by
  have order : (Span.over before text).start ≤ (Span.over before text).stop := by simp
  have length :
      (Span.over before text).stop - (Span.over before text).start = Text.byteLength text := by
    simp
  rw [slice, slice?, if_pos order, length, whole, List.append_assoc, Span.start_over,
    splitBytes?_append]
  simp only [Option.bind_eq_bind, Option.bind_some, splitBytes?_append]
  rfl

theorem slice_of_piece {source : String} {before text : List Char} {line : Nat} {span : Span}
    (h : Piece source.toList before text line span) :
    slice source span = .ok (span.slice source) := by
  obtain ⟨rest, whole⟩ := h.inside
  rw [h.slice, h.span_eq, slice_over whole.symm]

theorem tokensFrom_eq {source : String} {front line : List Char} {ls : List Lexeme}
    (whole : source.toList = front ++ line ++ ls.flatMap Lexeme.text) (n : Nat) :
    tokensFrom source (Text.byteLength (front ++ line)) n (Text.byteLength front) ls =
      lift (Token.ofLexemes ⟨Text.byteLength (front ++ line), n, line.length + 1⟩ ls).result := by
  induction ls generalizing front line n with
  | nil => rfl
  | cons l ls ih =>
    obtain ⟨kind, text⟩ := l
    simp only [List.flatMap_cons] at whole
    have stays : source.toList = front ++ (line ++ text) ++ ls.flatMap Lexeme.text := by
      simpa only [List.append_assoc] using whole
    have stop : Text.byteLength (front ++ line) + Text.byteLength text =
        Text.byteLength (front ++ (line ++ text)) := by
      simp only [Text.byteLength_append, Nat.add_assoc]
    have column :
        slice source ⟨Text.byteLength front, Text.byteLength (front ++ line)⟩ =
          .ok (.ofList line) :=
      slice_over (by rw [whole, List.append_assoc])
    have inside :
        slice source ⟨Text.byteLength (front ++ line), Text.byteLength (front ++ (line ++ text))⟩ =
          .ok (.ofList text) := by
      rw [← List.append_assoc]
      exact slice_over (by simpa only [List.append_assoc] using whole)
    have columns : line.length + 1 + text.length = (line ++ text).length + 1 := by
      rw [List.length_append]
      omega
    cases kind with
    | blank =>
      simp only [tokensFrom, Token.ofLexemes, Place.after, stop, columns]
      exact ih stays n
    | comment =>
      simp only [tokensFrom, Token.ofLexemes, Place.after, stop, columns, column, inside]
      exact ih stays n
    | token kind =>
      simp only [tokensFrom, Token.ofLexemes, Place.spanTo, stop, column, inside, bind, Except.bind,
        String.toList_ofList]
      split
      · rfl
      rw [Scan.result_cons, lift_map]
      by_cases newline : kind = .newline
      · subst newline
        have broken :
            source.toList = (front ++ (line ++ text)) ++ [] ++ ls.flatMap Lexeme.text := by
          rw [List.append_nil, stays]
        have next := ih broken (n + 1)
        rw [List.append_nil] at next
        simp only [Place.after, stop, if_true, next]
        rfl
      · have plain : ¬ Lexeme.IsLineBreak ⟨.token kind, text⟩ := by
          simpa [Lexeme.IsLineBreak] using newline
        simp only [Place.after_of_not_isLineBreak _ plain, newline, stop, columns, if_false,
          ih stays n]
        rfl

theorem tokenize_eq (source : String) : tokenize source = lift (Token.tokenize source) := by
  have whole : source.toList = [] ++ [] ++ (Lexeme.scan source.toList).flatMap Lexeme.text :=
    (Lexeme.flatMap_text_scan source.toList).symm
  rw [Token.tokenize_eq_result]
  exact tokensFrom_eq whole 1

theorem lineSpan_tokens (l : Line) : lineSpan l.tokens = l.span := by
  rw [lineSpan, List.getLast?_eq_some_getLast (by simp [Line.tokens])]
  rfl

theorem timestamps_eq : timestamps = timestampFields := by
  have created : fieldName "created_at" = .ok createdAt := fieldName_eq_ok_iff.mpr rfl
  have updated : fieldName "updated_at" = .ok updatedAt := fieldName_eq_ok_iff.mpr rfl
  simp only [timestamps, List.filterMap_cons, created, updated]
  rfl

section Lines

variable {source : String} {l : Line}

theorem declare_eq (model : Identifier) (fields declared : List Field) :
    declare model l.tokens fields declared = lift (l.declare model fields declared) := by
  have first : tokenAt l.tokens 0 = .ok l.first := rfl
  induction declared generalizing fields with
  | nil => rfl
  | cons f declared ih =>
    simp only [declare, Line.declare, lineSpan_tokens, first, ih]
    split <;> rfl

variable (inside : slice source l.span = .ok (l.span.slice source))
include inside

theorem typeClause_eq (model : Identifier) (word : Token) (rest : List Token) :
    typeClause source model l.tokens l.first word rest =
      lift (l.typeClause source model word rest) := by
  simp only [typeClause, Line.typeClause, lineSpan_tokens, inside]
  split
  · rcases rest with _ | ⟨opening, _ | ⟨target, _ | ⟨closing, rest⟩⟩⟩
    · rfl
    · rfl
    · rfl
    · dsimp only
      split
      · rw [lift_bind]
        rfl
      · rfl
  · rfl

theorem readField_eq (model : Identifier) (word : Token) (rest : List Token) :
    readField source model l.tokens l.first word rest =
      lift (l.readField source model l.first word rest) := by
  simp only [readField, Line.readField, typeClause_eq inside, lift_bind]
  rfl

theorem readLine_eq (model : Identifier) :
    readLine source model l.tokens = lift (l.read source model) := by
  have malformed : (do
      let first ← tokenAt l.tokens 0
      let content ← slice source (lineSpan l.tokens)
      report (.malformedLine model.text first.line content (lineSpan l.tokens))) =
      lift (.error (l.malformed source model) : Except Error (List Field × List Warning)) := by
    rw [lineSpan_tokens, inside]
    rfl
  have field := readField_eq inside model
  obtain ⟨first, rest⟩ := l
  rcases rest with _ | ⟨colon, _ | ⟨word, rest⟩⟩
  · simp only [readLine, Line.read, Line.tokens, timestamps_eq] at malformed ⊢
    split
    · rfl
    · exact malformed
  · exact malformed
  · simp only [readLine, Line.read, Line.tokens] at malformed field ⊢
    split
    · rw [field, lift_bind]
      rfl
    · exact malformed

end Lines

theorem splitOnP_newline {t : Token} (h : t.isNewline) (rest : List Token) :
    (t :: rest).splitOnP Token.isNewline = [] :: rest.splitOnP Token.isNewline := by
  simp [List.splitOnP_cons_eq_if_modifyHead, h]

theorem readLines_eq {source : String} {model : Identifier} {body : List Token}
    (inside : ∀ l ∈ Line.ofBody body, slice source l.span = .ok (l.span.slice source))
    (fields : List Field) :
    readLines source model fields (body.splitOnP Token.isNewline) =
      lift (Line.readAll source model fields (Line.ofBody body)) := by
  fun_induction Line.ofBody body generalizing fields with
  | case1 => rfl
  | case2 t rest newline ih =>
    rw [splitOnP_newline newline]
    exact ih inside fields
  | case3 t rest solid ih =>
    obtain ⟨head, tail⟩ := List.forall_mem_cons.mp inside
    have unbroken := Line.solid_takeWhile solid rest
    have whole :
        t :: rest = t :: rest.takeWhile (!·.isNewline) ++ rest.dropWhile (!·.isNewline) := by
      simp
    have later := ih tail
    have stop := Line.newline_dropWhile rest
    -- The line break after the line makes a piece without tokens when the rest is split on its own.
    have pieces : ∃ pieces, (t :: rest).splitOnP Token.isNewline =
        (t :: rest.takeWhile (!·.isNewline)) :: pieces ∧ ∀ fields,
          readLines source model fields pieces =
            readLines source model fields
              ((rest.dropWhile (!·.isNewline)).splitOnP Token.isNewline) := by
      rw [whole]
      generalize rest.dropWhile (!·.isNewline) = after at stop
      cases after with
      | nil =>
        rw [List.append_nil, List.splitOnP_eq_singleton unbroken]
        exact ⟨[], rfl, fun _ => rfl⟩
      | cons u more =>
        have newline : u.isNewline := stop u rfl
        rw [List.splitOnP_append_cons_of_forall_mem unbroken u newline, splitOnP_newline newline]
        exact ⟨_, rfl, fun _ => rfl⟩
    obtain ⟨pieces, split, same⟩ := pieces
    have read := readLine_eq head model
    have declared := declare_eq (l := ⟨t, rest.takeWhile (!·.isNewline)⟩) model
    simp only [Line.tokens] at read declared
    rw [split, readLines, Line.readAll]
    simp only [List.isEmpty_cons, Bool.false_eq_true, if_false, read, declared, same, later,
      lift_bind]
    rfl

section Blocks

variable {tokens : List Token}

theorem drop_of_getElem? {i : Nat} {t : Token} (h : tokens[i]? = some t) :
    tokens.drop i = t :: tokens.drop (i + 1) := by
  obtain ⟨inside, rfl⟩ := List.getElem?_eq_some_iff.mp h
  exact List.drop_eq_getElem_cons inside

theorem drop_skipNewlines (tokens : List Token) (i : Nat) :
    tokens.drop (skipNewlines tokens i) = (tokens.drop i).dropWhile Token.isNewline ∧
      i ≤ skipNewlines tokens i := by
  fun_induction skipNewlines tokens i with
  | case1 i t found newline ih =>
    rw [drop_of_getElem? found, List.dropWhile_cons_of_pos newline]
    exact ⟨ih.1, by omega⟩
  | case2 i t found solid =>
    rw [drop_of_getElem? found, List.dropWhile_cons_of_neg solid]
    exact ⟨rfl, Nat.le_refl i⟩
  | case3 i none =>
    rw [List.drop_eq_nil_of_le (List.getElem?_eq_none_iff.mp none)]
    exact ⟨rfl, Nat.le_refl i⟩

/-- The parts of a header are found where the cursor looks for them. -/
theorem header?_eq (tokens : List Token) (pos : Nat) :
    (header? tokens pos = none ∧ Block.header? (tokens.drop (pos + 1)) = none) ∨
      ∃ name brace t u, header? tokens pos = some (name, brace) ∧ pos < brace ∧
        tokens[name]? = some t ∧ t.kind = .identifier ∧
        tokens[brace]? = some u ∧ u.kind = .openBrace ∧
        Block.header? (tokens.drop (pos + 1)) = some (t, tokens.drop (brace + 1)) := by
  obtain ⟨dropName, forward⟩ := drop_skipNewlines tokens (pos + 1)
  obtain ⟨dropBrace, forward'⟩ := drop_skipNewlines tokens (skipNewlines tokens (pos + 1) + 1)
  rw [header?, Block.header?, ← dropName]
  generalize skipNewlines tokens (pos + 1) = name at *
  generalize skipNewlines tokens (name + 1) = brace at *
  cases foundName : tokens[name]? with
  | none =>
    exact .inl ⟨rfl, by rw [List.drop_eq_nil_of_le (List.getElem?_eq_none_iff.mp foundName)]⟩
  | some t =>
    rw [drop_of_getElem? foundName]
    simp only [← dropBrace]
    cases foundBrace : tokens[brace]? with
    | none =>
      exact .inl ⟨rfl, by rw [List.drop_eq_nil_of_le (List.getElem?_eq_none_iff.mp foundBrace)]⟩
    | some u =>
      rw [drop_of_getElem? foundBrace]
      by_cases kinds : t.kind = .identifier ∧ u.kind = .openBrace
      · exact .inr ⟨name, brace, t, u, if_pos kinds, by omega, foundName, kinds.1, foundBrace,
          kinds.2, if_pos kinds⟩
      · exact .inl ⟨if_neg kinds, if_neg kinds⟩

/-- Counting from the brace on comes to the brace that balances, and never below zero. -/
theorem closeAt_eq (depth i : Nat) (ts : List Token) :
    closeAt (depth + 1) i ts =
      .ok ((Block.close? depth ts).map fun (body, _) => i + body.length) := by
  induction ts generalizing depth i with
  | nil => rfl
  | cons t ts ih =>
    have next : (fun p : List Token × List Token => i + (t :: p.1).length) =
        fun p => i + 1 + p.1.length := by
      funext p
      rw [List.length_cons]
      omega
    by_cases opens : t.kind = .openBrace
    · rw [Block.close?_openBrace opens, Option.map_map]
      simp only [closeAt, opens, ih, Function.comp_def, next]
    by_cases closes : t.kind = .closeBrace
    · cases depth with
      | zero => simp [closeAt, Block.close?, closes]
      | succ depth =>
        rw [Block.close?_closeBrace closes, Option.map_map]
        simp only [closeAt, closes, Function.comp_def, next, Nat.add_sub_cancel, ih]
        rfl
    · rw [Block.close?_plain opens closes, Option.map_map]
      have step : closeAt (depth + 1) i (t :: ts) = closeAt (depth + 1) (i + 1) ts := by
        cases hk : t.kind <;> first | contradiction | simp [closeAt, hk]
      simp only [step, ih, Function.comp_def, next]

theorem range_of_drop {start : Nat} {body after : List Token} {closing : Token}
    (h : tokens.drop start = body ++ closing :: after) :
    range tokens start (start + body.length) = .ok body ∧
      tokens.drop (start + body.length + 1) = after := by
  have bound : start + body.length < tokens.length := by
    have lengths := congrArg List.length h
    rw [List.length_drop, List.length_append, List.length_cons] at lengths
    omega
  constructor
  · rw [range, if_pos (by omega), Nat.add_sub_cancel_left, h, List.take_left' rfl]
  · rw [Nat.add_assoc, ← List.drop_drop, h, ← List.drop_drop, List.drop_left' rfl, List.drop_one,
      List.tail_cons]

/-- The block is found as a whole, and read as it is on its own. -/
theorem readBlock_eq {source : String} {pos name brace : Nat} {keyword t u : Token}
    (spelt : ∀ t ∈ tokens, t.word.Spelt)
    (inside : ∀ body, body <:+: tokens → ∀ l ∈ Line.ofBody body,
      slice source l.span = .ok (l.span.slice source))
    (hkeyword : tokens[pos]? = some keyword) (hname : tokens[name]? = some t)
    (kind : t.kind = .identifier)
    (hbrace : tokens[brace]? = some u) (opens : u.kind = .openBrace) :
    readBlock source tokens pos name brace =
      match Block.close? 0 (tokens.drop (brace + 1)) with
      | none => report (.unbalancedBraces t.text keyword.line
          ⟨keyword.span.start, Text.byteLength source.toList⟩)
      | some (body, _) => lift (Block.read ⟨keyword, t, body⟩ source) >>= fun (model, warnings) =>
          .ok (model, warnings, brace + 1 + body.length + 1) := by
  have spelt := spelt t (List.mem_of_getElem? hname)
  obtain ⟨-, model, named⟩ := Token.exists_named spelt (by rw [kind]; rfl)
  have close : closeAt 0 brace (tokens.drop brace) =
      .ok ((Block.close? 0 (tokens.drop (brace + 1))).map
        fun (body, _) => brace + 1 + body.length) := by
    rw [drop_of_getElem? hbrace, ← closeAt_eq]
    simp [closeAt, opens]
  have nameToken : tokenAt tokens name = .ok t := by rw [tokenAt, hname]; rfl
  have keywordToken : tokenAt tokens pos = .ok keyword := by rw [tokenAt, hkeyword]; rfl
  simp only [readBlock, nameToken, close, named, Block.read, ok_bind, lift_ok]
  cases found : Block.close? 0 (tokens.drop (brace + 1)) with
  | none =>
    simp only [Option.map_none, keywordToken, Line.modelName_named_iff.mp named, ok_bind]
  | some result =>
    obtain ⟨body, after⟩ := result
    obtain ⟨closing, whole, -⟩ := Block.close?_zero_eq_some_iff.mp found
    have contiguous : body <:+: tokens := by
      refine List.IsInfix.trans ?_ (List.drop_suffix (brace + 1) tokens).isInfix
      exact ⟨[], closing :: after, by rw [whole]; rfl⟩
    obtain ⟨range, -⟩ := range_of_drop whole
    simp only [Option.map_some, range, readLines_eq (inside body contiguous), lift_bind, ok_bind,
      bind_assoc]
    rfl

end Blocks

end Cursor

/-- Reads the blocks of an outline. One that stays open is an error after those before it. -/
def Outline.read (outline : Outline) (source : String) (d : Document) :
    Except Error (Document × List Warning) := do
  let (document, warnings) ← Block.readAll source d outline.blocks
  match outline.unclosed? with
  | none => return (document, warnings)
  | some (keyword, name) =>
    .error (.unbalancedBraces name.text keyword.line
      ⟨keyword.span.start, Text.byteLength source.toList⟩)

theorem Outline.parse_eq_read (source : String) :
    parse source = Token.tokenize source >>= fun tokens =>
      (ofTokens tokens).read source ∅ >>= fun (document, warnings) => .ok ⟨document, warnings⟩ := by
  unfold parse
  refine bind_congr fun tokens => ?_
  dsimp only [read]
  rcases Block.readAll source ∅ (ofTokens tokens).blocks with e | ⟨document, warnings⟩
  · rfl
  simp only [ok_bind]
  rcases (ofTokens tokens).unclosed? with _ | ⟨keyword, name⟩ <;> rfl

theorem Outline.read_block {outline : Outline} {b : Block} {source : String} {d : Document} :
    Outline.read ⟨b :: outline.blocks, outline.unclosed?⟩ source d =
      b.read source >>= fun (model, warnings) =>
        match d.insert model with
        | .error _ => .error (.duplicateModel model.name.text b.name.line b.name.span)
        | .ok d => outline.read source d >>= fun (document, later) =>
            .ok (document, warnings ++ later) := by
  simp only [Outline.read, Block.readAll]
  rcases b.read source with e | ⟨model, warnings⟩
  · rfl
  simp only [ok_bind]
  rcases d.insert model with e | joined
  · rfl
  simp only
  rcases Block.readAll source joined outline.blocks with e | ⟨document, later⟩
  · rfl
  simp only [ok_bind]
  rcases outline.unclosed? with _ | ⟨keyword, name⟩ <;> rfl

namespace Cursor

theorem readFrom_eq {source : String} {tokens : List Token} (spelt : ∀ t ∈ tokens, t.word.Spelt)
    (inside : ∀ body, body <:+: tokens → ∀ l ∈ Line.ofBody body,
      slice source l.span = .ok (l.span.slice source)) (pos : Nat) (d : Document) :
    readFrom source tokens pos d = lift ((Outline.ofTokens (tokens.drop pos)).read source d) := by
  induction hn : tokens.length - pos using Nat.strong_induction_on generalizing pos d with
  | _ n ih =>
    subst hn
    rw [readFrom]
    split
    · next none =>
      rw [List.drop_eq_nil_of_le (List.getElem?_eq_none_iff.mp none), Outline.ofTokens]
      rfl
    next keyword found =>
    have bound := (List.getElem?_eq_some_iff.mp found).1
    rw [drop_of_getElem? found]
    split
    · next other =>
      rw [Outline.ofTokens_skip fun hk => absurd hk other]
      exact ih _ (by omega) (pos + 1) d rfl
    next hk =>
    have hk : keyword.kind = .model := by simpa using hk
    rcases header?_eq tokens pos with ⟨header, unopened⟩ |
      ⟨name, brace, t, u, header, forward, hname, kind, hbrace, opens, opened⟩
    · rw [header, Outline.ofTokens_skip fun _ => unopened]
      exact ih _ (by omega) (pos + 1) d rfl
    rw [header]
    simp only [readBlock_eq spelt inside found hname kind hbrace opens]
    cases close : Block.close? 0 (tokens.drop (brace + 1)) with
    | none =>
      rw [Outline.ofTokens_unclosed hk opened close]
      rfl
    | some result =>
      obtain ⟨body, after⟩ := result
      obtain ⟨closing, whole, -⟩ := Block.close?_zero_eq_some_iff.mp close
      obtain ⟨-, behind⟩ := range_of_drop whole
      rw [Outline.ofTokens_block hk opened close, Outline.read_block]
      dsimp only
      rcases Block.read ⟨keyword, t, body⟩ source with e | ⟨model, warnings⟩
      · rfl
      have nameToken : tokenAt tokens name = .ok t := by rw [tokenAt, hname]; rfl
      simp only [lift_ok, ok_bind, nameToken]
      by_cases known : d.Contains model.name
      · have refused : d.insert model = .error (.duplicateModel model.name.text) := dif_pos known
        rw [if_pos known, refused]
        rfl
      · rcases joined : d.insert model with e | d'
        · rw [Document.insert, dif_neg known] at joined
          cases joined
        · have next := ih _ (by omega) (brace + 1 + body.length + 1) d' rfl
          rw [if_neg known]
          dsimp only
          rw [dif_pos (by omega), next, behind, lift_bind]
          rfl

/-- The slices that quote lines are found. -/
theorem slice_line {source : String} {tokens : List Token}
    (tokenized : Token.tokenize source = .ok tokens) {body : List Token}
    (contiguous : body <:+: tokens) {l : Line} (hl : l ∈ Line.ofBody body) :
    slice source l.span = .ok (l.span.slice source) := by
  obtain ⟨-, _, _, -, piece⟩ :=
    Line.piece (Token.tiling_of_tokenize tokenized) contiguous (Line.isLine_of_mem_ofBody hl)
  exact slice_of_piece piece

theorem parse_eq (source : String) : parse source = lift (Source.parse source) := by
  rw [parse, tokenize_eq, Outline.parse_eq_read]
  cases tokenized : Token.tokenize source with
  | error e => rfl
  | ok tokens =>
    have read := readFrom_eq (Token.spelt_of_tokenize tokenized)
      (fun body contiguous l hl => slice_line tokenized contiguous hl) 0 ∅
    simp only [lift_ok, ok_bind, read, List.drop_zero, lift_bind]
    rfl

end Cursor

/-- The error is one that only a fault of the reader could give. -/
def Error.IsInternal : Error → Prop
  | .invalidToken .. | .invalidSchema .. => True
  | _ => False

theorem Fault.not_isInternal {source : String} {tokens : List Token} {e : Error}
    (h : Fault source tokens e) : ¬ e.IsInternal := by
  cases h with
  | line _ _ fault => cases fault <;> exact id
  | name => exact id
  | unclosed => exact id

theorem not_isInternal_of_parse {source : String} {e : Error} (h : parse source = .error e) :
    ¬ e.IsInternal := by
  rcases fault_of_parse h with h | ⟨tokens, -, fault⟩
  · obtain ⟨_, _, cut⟩ := (tiling_scan source).cut_of_error (Token.tokenize_eq_error_iff.mp h)
    rw [cut.error]
    exact id
  · exact fault.not_isInternal

/-- Nothing but an error of the text ends the reading of a text. No access to its tokens or its
bytes misses, no depth is taken below zero, no round of the loop stands still, and the errors that
only a fault of the reader could give do not occur. -/
theorem parse_never_misses (source : String) :
    Cursor.parse source = (parse source).mapError .error ∧
      (∀ halt, Cursor.parse source = .error halt → ∃ e, halt = .error e ∧ ¬ e.IsInternal) ∧
      Cursor.timestamps.map (·.name.text) = ["created_at", "updated_at"] := by
  refine ⟨Cursor.parse_eq source, fun halt h => ?_, ?_⟩
  · rw [Cursor.parse_eq] at h
    cases found : parse source with
    | ok r =>
      rw [found] at h
      cases h
    | error e =>
      rw [found] at h
      cases h
      exact ⟨e, rfl, not_isInternal_of_parse found⟩
  · rw [Cursor.timestamps_eq]
    rfl

end SchemaPlan.Source
