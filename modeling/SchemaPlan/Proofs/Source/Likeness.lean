import SchemaPlan.Proofs.Source.Fault

/-!
# Readings that look the same

Two texts whose tokens are alike are read alike, one layer after the other. How much of a place and
of a quoted line is looked at is left open. Spans are never looked at.
-/

namespace SchemaPlan.Source

/-- How lines and columns are looked at, and the lines that errors quote. -/
structure Sight where
  place : Nat → Nat
  content : String → String

namespace Sight

def exact : Sight := ⟨id, id⟩

/-- Neither places nor quoted lines are seen. -/
def blurred : Sight := ⟨fun _ => 0, fun _ => ""⟩

end Sight

/-- A span that is not looked at. -/
def Span.unseen : Span := ⟨0, 0⟩

def Error.seen (v : Sight) : Error → Error
  | .invalidToken line column _ => .invalidToken (v.place line) (v.place column) .unseen
  | .unterminatedAttribute line column text _ =>
    .unterminatedAttribute (v.place line) (v.place column) text .unseen
  | .unbalancedBraces model line _ => .unbalancedBraces model (v.place line) .unseen
  | .malformedLine model line content _ =>
    .malformedLine model (v.place line) (v.content content) .unseen
  | .malformedField model line content reason _ =>
    .malformedField model (v.place line) (v.content content) reason .unseen
  | .duplicateField model field line _ => .duplicateField model field (v.place line) .unseen
  | .duplicateModel model line _ => .duplicateModel model (v.place line) .unseen
  | .duplicateDefault model field line _ => .duplicateDefault model field (v.place line) .unseen
  | .invalidSchema cause line _ => .invalidSchema cause (v.place line) .unseen

def Warning.seen (v : Sight) (w : Warning) : Warning :=
  { w with line := v.place w.line, span := .unseen }

/-- Both succeed with related results, or both fail with errors that look the same. -/
inductive Agree (v : Sight) {α β : Type} (R : α → β → Prop) :
    Except Error α → Except Error β → Prop
  | ok {a b} : R a b → Agree v R (.ok a) (.ok b)
  | error {e e'} : e.seen v = e'.seen v → Agree v R (.error e) (.error e')

/-- The same result, with warnings that look the same. -/
structure SameWarned (v : Sight) {α : Type} (r r' : α × List Warning) : Prop where
  result : r.1 = r'.1
  warnings : r.2.map (·.seen v) = r'.2.map (·.seen v)

namespace Agree

variable {v : Sight} {α β γ δ : Type} {R : α → β → Prop} {S : γ → δ → Prop}

theorem bind {x : Except Error α} {y : Except Error β} {f : α → Except Error γ}
    {g : β → Except Error δ} (h : Agree v R x y) (step : ∀ a b, R a b → Agree v S (f a) (g b)) :
    Agree v S (x >>= f) (y >>= g) := by
  cases h with
  | ok related => exact step _ _ related
  | error same => exact .error same

/-- A check that says no more than what is wrong. -/
theorem mapError {ε : Type} (x : Except ε α) {f g : ε → Error}
    (same : ∀ e, (f e).seen v = (g e).seen v) : Agree v Eq (x.mapError f) (x.mapError g) := by
  cases x with
  | ok a => exact .ok rfl
  | error e => exact .error (same e)

end Agree

/-- Tokens that look the same. Line breaks may be spelt differently. -/
structure Token.Alike (v : Sight) (t u : Token) : Prop where
  kind : t.kind = u.kind
  text : t.kind ≠ .newline → t.text = u.text
  line : v.place t.line = v.place u.line

namespace Token.Alike

variable {v : Sight} {t u : Token}

theorem text_of_kind (h : t.Alike v u) {kind : TokenKind} (hk : t.kind = kind)
    (solid : kind ≠ .newline) : t.text = u.text := h.text (hk ▸ solid)

theorem text_of_isName (h : t.Alike v u) (name : t.kind.isName) : t.text = u.text := by
  apply h.text
  intro newline
  rw [newline] at name
  cases name

theorem isWord (h : t.Alike v u) (word : String) : t.isWord word = u.isWord word := by
  unfold Token.isWord
  rw [← h.kind]
  by_cases hk : t.kind = .identifier
  · rw [h.text_of_kind hk (by decide)]
  · rw [beq_false_of_ne hk, Bool.false_and, Bool.false_and]

theorem named (h : t.Alike v u) (name : t.kind.isName)
    (check : String → Except SchemaError Identifier) :
    Agree v Eq (t.named check) (u.named check) := by
  unfold Token.named
  rw [h.text_of_isName name]
  exact .mapError _ fun e => by simp only [Error.seen, h.line]

end Token.Alike

theorem Token.isNewline_eq {t u : Token} (h : t.kind = u.kind) : t.isNewline = u.isNewline := by
  rw [Token.isNewline, Token.isNewline, h]

namespace Site

variable {v : Sight} {t u : Token}

theorem warn_alike (site : Site) (h : t.Alike v u) (kind : WarningKind) :
    (site.warn t kind).seen v = (site.warn u kind).seen v := by
  simp only [warn, Warning.seen, h.line]

theorem applyDefault_alike (site : Site) (h : t.Alike v u) (set : AttributeSet)
    (arguments? : Option String) :
    Agree v (SameWarned v) (site.applyDefault t set arguments?)
      (site.applyDefault u set arguments?) := by
  have missing : SameWarned v (set, [site.warn t .missingDefaultValue])
      (set, [site.warn u .missingDefaultValue]) :=
    ⟨rfl, congrArg ([·]) (site.warn_alike h _)⟩
  unfold applyDefault
  split
  · exact .ok missing
  · exact .ok missing
  · split
    · exact .error (by simp only [Error.seen, h.line])
    · exact .ok ⟨rfl, rfl⟩

theorem applyFlag_alike (site : Site) (h : t.Alike v u) (set : AttributeSet) (f : Flag)
    (arguments? : Option String) :
    SameWarned v (site.applyFlag t set f arguments?) (site.applyFlag u set f arguments?) := by
  have ignored := site.warn_alike h (.ignoredArguments f.name)
  have repeated := site.warn_alike h (.duplicateAttribute f.name)
  unfold applyFlag
  dsimp only
  split
  · refine ⟨rfl, ?_⟩
    cases arguments?.isSome <;> simp [ignored, repeated]
  · refine ⟨rfl, ?_⟩
    cases arguments?.isSome <;> simp [ignored]

theorem applyTag_alike (site : Site) (h : t.Alike v u) (text : t.text = u.text)
    (set : AttributeSet) : Agree v (SameWarned v) (site.applyTag t set) (site.applyTag u set) := by
  unfold applyTag
  rw [← text]
  dsimp only
  split
  · exact site.applyDefault_alike h set _
  · split
    · exact .ok (site.applyFlag_alike h set _ _)
    · exact .ok ⟨rfl, congrArg ([·]) (site.warn_alike h _)⟩

theorem applyTags_alike (site : Site) {ts us : List Token}
    (h : List.Forall₂ (Token.Alike v) ts us) (set : AttributeSet) :
    Agree v (SameWarned v) (site.applyTags set ts) (site.applyTags set us) := by
  induction h generalizing set with
  | nil => exact .ok ⟨rfl, rfl⟩
  | @cons t u ts us head _ ih =>
    unfold applyTags
    rw [← head.kind]
    split
    · next tag =>
      refine (site.applyTag_alike head (head.text_of_kind tag (by decide)) set).bind ?_
      rintro ⟨next, first⟩ ⟨_, first'⟩ ⟨rfl, warned⟩
      refine (ih next).bind ?_
      rintro ⟨last, later⟩ ⟨_, later'⟩ ⟨rfl, warned'⟩
      exact .ok ⟨rfl, by simp only [List.map_append, warned, warned']⟩
    · exact ih set

end Site

/-- Lines of two texts whose tokens are alike. -/
structure Line.Alike (v : Sight) (source source' : String) (l m : Line) : Prop where
  first : l.first.Alike v m.first
  rest : List.Forall₂ (Token.Alike v) l.rest m.rest
  content : v.content (l.span.slice source) = v.content (m.span.slice source')

namespace Line

variable {v : Sight} {source source' : String} {l m : Line}

theorem malformed_alike (h : l.Alike v source source' m) (model : Identifier) :
    (l.malformed source model).seen v = (m.malformed source' model).seen v := by
  simp only [malformed, Error.seen, h.first.line, h.content]

theorem typeClause_alike (h : l.Alike v source source' m) (model : Identifier) {word word' : Token}
    (text : word.text = word'.text) {rest rest' : List Token}
    (row : List.Forall₂ (Token.Alike v) rest rest') :
    Agree v (fun r r' => r.1 = r'.1 ∧ List.Forall₂ (Token.Alike v) r.2 r'.2)
      (l.typeClause source model word rest) (m.typeClause source' model word' rest') := by
  unfold typeClause
  rw [← text]
  split
  · dsimp only
    have refused (reason : String) :
        (Error.malformedField model.text l.first.line (l.span.slice source) reason l.span).seen v =
          (Error.malformedField model.text m.first.line (m.span.slice source') reason
            m.span).seen v := by
      simp only [Error.seen, h.first.line, h.content]
    match row with
    | .nil => exact .error (refused _)
    | .cons _ .nil => exact .error (refused _)
    | .cons _ (.cons _ .nil) => exact .error (refused _)
    | .cons opening (.cons target (.cons closing row)) =>
      dsimp only
      rw [← opening.kind, ← target.kind, ← closing.kind]
      split
      · next kinds =>
        refine (target.named (by rw [kinds.2.1]; rfl) _).bind ?_
        rintro name _ rfl
        exact .ok ⟨rfl, row⟩
      · exact .error (refused _)
  · exact .ok ⟨rfl, row⟩

theorem readField_alike (h : l.Alike v source source' m) (model : Identifier)
    {name name' word word' : Token} (hn : name.Alike v name') (named : name.kind.isName)
    (text : word.text = word'.text) {rest rest' : List Token}
    (row : List.Forall₂ (Token.Alike v) rest rest') :
    Agree v (SameWarned v) (l.readField source model name word rest)
      (m.readField source' model name' word' rest') := by
  unfold readField
  refine (hn.named named _).bind ?_
  rintro fieldName _ rfl
  refine (typeClause_alike h model text row).bind ?_
  rintro ⟨type, tags⟩ ⟨_, tags'⟩ ⟨rfl, row⟩
  refine (Site.applyTags_alike _ row ∅).bind ?_
  rintro ⟨attributes, warnings⟩ ⟨_, warnings'⟩ ⟨rfl, warned⟩
  exact .ok ⟨rfl, warned⟩

theorem read_alike (h : l.Alike v source source' m) (model : Identifier) :
    Agree v (SameWarned v) (l.read source model) (m.read source' model) := by
  have refused := malformed_alike h model
  obtain ⟨first, rest⟩ := l
  obtain ⟨first', rest'⟩ := m
  obtain ⟨head, row, -⟩ := id h
  simp only [read] at *
  cases row with
  | nil =>
    simp only [head.isWord]
    split
    · exact .ok ⟨rfl, rfl⟩
    · exact .error refused
  | cons colon row =>
    cases row with
    | nil => exact .error refused
    | cons word row =>
      simp only [← head.kind, ← colon.kind, ← word.kind]
      split
      · next kinds =>
        refine (readField_alike h model head kinds.1 (word.text_of_isName kinds.2.2) row).bind ?_
        rintro ⟨f, warnings⟩ ⟨_, warnings'⟩ ⟨rfl, warned⟩
        exact .ok ⟨rfl, warned⟩
      · exact .error refused

theorem declare_alike (h : l.Alike v source source' m) (model : Identifier)
    (fields declared : List Field) :
    Agree v Eq (l.declare model fields declared) (m.declare model fields declared) := by
  induction declared generalizing fields with
  | nil => exact .ok rfl
  | cons f declared ih =>
    unfold declare
    split
    · exact .error (by simp only [Error.seen, h.first.line])
    · exact ih _

theorem readAll_alike {ls ms : List Line} (h : List.Forall₂ (Line.Alike v source source') ls ms)
    (model : Identifier) (fields : List Field) :
    Agree v (SameWarned v) (readAll source model fields ls) (readAll source' model fields ms) := by
  induction h generalizing fields with
  | nil => exact .ok ⟨rfl, rfl⟩
  | cons head _ ih =>
    unfold readAll
    refine (read_alike head model).bind ?_
    rintro ⟨declared, warnings⟩ ⟨_, warnings'⟩ ⟨rfl, warned⟩
    refine (declare_alike head model fields declared).bind ?_
    rintro fields _ rfl
    refine (ih fields).bind ?_
    rintro ⟨fields, later⟩ ⟨_, later'⟩ ⟨rfl, warned'⟩
    exact .ok ⟨rfl, by simp only [List.map_append, warned, warned']⟩

end Line

section Outlines

variable {R : Token → Token → Prop}

theorem Line.ofBody_alike (kind : ∀ t u, R t u → t.kind = u.kind) {ts us : List Token}
    (h : List.Forall₂ R ts us) :
    List.Forall₂ (fun l m => List.Forall₂ R l.tokens m.tokens) (ofBody ts) (ofBody us) := by
  have same (t u : Token) (related : R t u) := Token.isNewline_eq (kind t u related)
  have other (t u : Token) (related : R t u) : (!t.isNewline) = !u.isNewline := by
    rw [same t u related]
  fun_induction ofBody ts generalizing us with
  | case1 =>
    cases h
    simp [ofBody]
  | case2 t rest newline ih =>
    cases h with
    | cons head tail =>
      rw [ofBody, if_pos (same _ _ head ▸ newline)]
      exact ih tail
  | case3 t rest solid ih =>
    cases h with
    | cons head tail =>
      rw [ofBody, if_neg (same _ _ head ▸ solid)]
      exact .cons (.cons head (forall₂_takeWhile other tail)) (ih (forall₂_dropWhile other tail))

/-- Blocks of two texts whose tokens are related. -/
structure Block.Alike (R : Token → Token → Prop) (b c : Block) : Prop where
  named : b.name.kind = .identifier
  name : R b.name c.name
  body : List.Forall₂ R b.body c.body

namespace Block

variable {ts us : List Token}

theorem header?_alike (kind : ∀ t u, R t u → t.kind = u.kind) (h : List.Forall₂ R ts us) :
    Option.Rel (fun p q => p.1.kind = .identifier ∧ R p.1 q.1 ∧ List.Forall₂ R p.2 q.2)
      (header? ts) (header? us) := by
  have same (t u : Token) (related : R t u) := Token.isNewline_eq (kind t u related)
  have solid := forall₂_dropWhile same h
  unfold header?
  revert solid
  generalize ts.dropWhile Token.isNewline = ts
  generalize us.dropWhile Token.isNewline = us
  rintro (_ | ⟨name, rest⟩)
  · exact .none
  dsimp only
  have solid := forall₂_dropWhile same rest
  revert solid
  generalize List.dropWhile Token.isNewline _ = ts
  generalize List.dropWhile Token.isNewline _ = us
  rintro (_ | ⟨brace, inside⟩)
  · exact .none
  dsimp only
  rw [← kind _ _ name, ← kind _ _ brace]
  split
  · next kinds => exact .some ⟨kinds.1, name, inside⟩
  · exact .none

theorem close?_alike (kind : ∀ t u, R t u → t.kind = u.kind) (h : List.Forall₂ R ts us)
    (depth : Nat) :
    Option.Rel (fun p q => List.Forall₂ R p.1 q.1 ∧ List.Forall₂ R p.2 q.2)
      (close? depth ts) (close? depth us) := by
  induction h generalizing depth with
  | nil => exact .none
  | @cons t u ts us head tail ih =>
    have more {x y : Option (List Token × List Token)}
        (h : Option.Rel (fun p q => List.Forall₂ R p.1 q.1 ∧ List.Forall₂ R p.2 q.2) x y) :
        Option.Rel (fun p q => List.Forall₂ R p.1 q.1 ∧ List.Forall₂ R p.2 q.2)
          (x.map fun p => (t :: p.1, p.2)) (y.map fun p => (u :: p.1, p.2)) := by
      cases h with
      | none => exact .none
      | some related => exact .some ⟨.cons head related.1, related.2⟩
    by_cases opens : t.kind = .openBrace
    · rw [close?_openBrace opens, close?_openBrace (kind t u head ▸ opens)]
      exact more (ih _)
    by_cases closes : t.kind = .closeBrace
    · have closes' : u.kind = .closeBrace := kind t u head ▸ closes
      cases depth with
      | zero => simpa [close?, closes, closes'] using tail
      | succ depth =>
        rw [close?_closeBrace closes, close?_closeBrace closes']
        exact more (ih _)
    · rw [close?_plain opens closes,
        close?_plain (kind t u head ▸ opens) (kind t u head ▸ closes)]
      exact more (ih _)

end Block

/-- Outlines of two texts whose tokens are related. -/
structure Outline.Alike (R : Token → Token → Prop) (o o' : Outline) : Prop where
  blocks : List.Forall₂ (Block.Alike R) o.blocks o'.blocks
  unclosed : Option.Rel (fun p q => p.2.kind = .identifier ∧ R p.1 q.1 ∧ R p.2 q.2)
    o.unclosed? o'.unclosed?

theorem Outline.ofTokens_alike (kind : ∀ t u, R t u → t.kind = u.kind) {ts us : List Token}
    (h : List.Forall₂ R ts us) : (ofTokens ts).Alike R (ofTokens us) := by
  revert us
  fun_induction ofTokens ts with
  | case1 =>
    rintro us ⟨⟩
    rw [ofTokens]
    exact ⟨.nil, .none⟩
  | case2 t ts _ header ih =>
    rintro _ (_ | @⟨_, u, _, us, head, tail⟩)
    have found := Block.header?_alike kind tail
    rw [header] at found
    rw [ofTokens_skip fun _ => eq_none_of_rel found]
    exact ih tail
  | case3 t ts hk name inside header unclosed =>
    rintro _ (_ | @⟨_, u, _, us, head, tail⟩)
    have found := Block.header?_alike kind tail
    rw [header] at found
    obtain ⟨⟨name', inside'⟩, header', named, sameName, inner⟩ := exists_of_rel found
    have open_ := Block.close?_alike kind inner 0
    rw [unclosed] at open_
    rw [ofTokens_unclosed (kind t u head ▸ hk) header' (eq_none_of_rel open_)]
    exact ⟨.nil, .some ⟨named, head, sameName⟩⟩
  | case4 t ts hk name inside header body after close outline =>
    rename_i ih
    rintro _ (_ | @⟨_, u, _, us, head, tail⟩)
    have found := Block.header?_alike kind tail
    rw [header] at found
    obtain ⟨⟨name', inside'⟩, header', named, sameName, inner⟩ := exists_of_rel found
    have closed := Block.close?_alike kind inner 0
    rw [close] at closed
    obtain ⟨⟨body', after'⟩, close', sameBody, sameAfter⟩ := exists_of_rel closed
    rw [ofTokens_block (kind t u head ▸ hk) header' close']
    obtain ⟨blocks, unclosed⟩ := ih sameAfter
    exact ⟨.cons ⟨named, sameName, sameBody⟩ blocks, unclosed⟩
  | case5 t ts hk ih =>
    rintro _ (_ | @⟨_, u, _, us, head, tail⟩)
    rw [ofTokens_skip fun e => absurd ((kind t u head).trans e) hk]
    exact ih tail

end Outlines

section Texts

variable {v : Sight} {source source' : String} {R : Token → Token → Prop}

/-- Lines of two blocks whose tokens are related, and that look the same where errors quote them. -/
def Block.QuotedAlike (v : Sight) (source source' : String) (R : Token → Token → Prop)
    (b c : Block) : Prop :=
  ∀ l ∈ Line.ofBody b.body, ∀ m ∈ Line.ofBody c.body, List.Forall₂ R l.tokens m.tokens →
    v.content (l.span.slice source) = v.content (m.span.slice source')

namespace Block

theorem read_alike (alike : ∀ t u, R t u → t.Alike v u) {b c : Block} (h : b.Alike R c)
    (quoted : b.QuotedAlike v source source' R c) :
    Agree v (SameWarned v) (b.read source) (c.read source') := by
  have name := alike _ _ h.name
  have lines : List.Forall₂ (Line.Alike v source source') (Line.ofBody b.body)
      (Line.ofBody c.body) := by
    have rows := forall₂_and_mem (Line.ofBody_alike (fun t u h => (alike t u h).kind) h.body)
    refine rows.imp fun l m ⟨row, hl, hm⟩ => ?_
    have content := quoted l hl m hm row
    cases row with
    | cons first rest => exact ⟨alike _ _ first, rest.imp alike, content⟩
  unfold read
  refine (name.named (by rw [h.named]; rfl) _).bind ?_
  rintro model _ rfl
  refine (Line.readAll_alike lines model []).bind ?_
  rintro ⟨fields, warnings⟩ ⟨_, warnings'⟩ ⟨rfl, warned⟩
  refine (Agree.mapError _ fun e => by simp only [Error.seen, name.line]).bind ?_
  rintro whole _ rfl
  exact .ok ⟨rfl, warned⟩

theorem readAll_alike (alike : ∀ t u, R t u → t.Alike v u) {bs cs : List Block}
    (h : List.Forall₂ (fun b c => b.Alike R c ∧ b.QuotedAlike v source source' R c) bs cs)
    (document : Document) :
    Agree v (SameWarned v) (readAll source document bs) (readAll source' document cs) := by
  induction h generalizing document with
  | nil => exact .ok ⟨rfl, rfl⟩
  | cons head _ ih =>
    have name := alike _ _ head.1.name
    unfold readAll
    refine (read_alike alike head.1 head.2).bind ?_
    rintro ⟨model, warnings⟩ ⟨_, warnings'⟩ ⟨rfl, warned⟩
    dsimp only
    split
    · exact .error (by simp only [Error.seen, name.line])
    · refine (ih _).bind ?_
      rintro ⟨document, later⟩ ⟨_, later'⟩ ⟨rfl, warned'⟩
      exact .ok ⟨rfl, by simp only [List.map_append, warned, warned']⟩

end Block

/-- The same document, with warnings that look the same. -/
structure Declared.Alike (v : Sight) (d e : Declared) : Prop where
  document : d.document = e.document
  warnings : d.warnings.map (·.seen v) = e.warnings.map (·.seen v)

/-- Texts with like tokens are read alike, if their lines look the same where errors quote them. -/
theorem parse_alike (alike : ∀ t u, R t u → t.Alike v u)
    (tokens : Agree v (List.Forall₂ R) (Token.tokenize source) (Token.tokenize source'))
    (quoted : ∀ ts us, Token.tokenize source = .ok ts → Token.tokenize source' = .ok us →
      ∀ b ∈ (Outline.ofTokens ts).blocks, ∀ c ∈ (Outline.ofTokens us).blocks,
        b.QuotedAlike v source source' R c) :
    Agree v (Declared.Alike v) (parse source) (parse source') := by
  unfold parse
  generalize Token.tokenize source = x at *
  generalize Token.tokenize source' = y at *
  cases tokens with
  | error same => exact .error same
  | @ok ts us row =>
    obtain ⟨blocks, unclosed⟩ := Outline.ofTokens_alike (fun t u h => (alike t u h).kind) row
    have read : List.Forall₂ (fun b c => b.Alike R c ∧ b.QuotedAlike v source source' R c)
        (Outline.ofTokens ts).blocks (Outline.ofTokens us).blocks :=
      (forall₂_and_mem blocks).imp fun b c ⟨same, hb, hc⟩ =>
        ⟨same, quoted ts us rfl rfl b hb c hc⟩
    rw [ok_bind, ok_bind]
    refine (Block.readAll_alike alike read ∅).bind ?_
    rintro ⟨document, warnings⟩ ⟨_, warnings'⟩ ⟨rfl, warned⟩
    dsimp only
    revert unclosed
    generalize (Outline.ofTokens ts).unclosed? = left
    generalize (Outline.ofTokens us).unclosed? = right
    rintro (⟨named, hk, hn⟩ | _)
    · refine .error ?_
      have text := (alike _ _ hn).text_of_kind named (by decide)
      simp only [Error.seen, text, (alike _ _ hk).line]
    · exact .ok ⟨rfl, warned⟩

end Texts

end SchemaPlan.Source
