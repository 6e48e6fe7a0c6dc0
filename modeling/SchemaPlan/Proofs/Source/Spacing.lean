import SchemaPlan.Proofs.Source.Likeness
import SchemaPlan.Proofs.Source.Tiling

/-!
# Spacing carries no meaning

The words of a text, one blank between each two, are cut into the same words again. Texts with the
same words are read alike, up to places and quoted lines.
-/

namespace SchemaPlan.Source

/-- The texts of some tokens, one blank between each two. -/
def spaced (ts : List Token) : String := " ".intercalate (ts.map Token.text)

theorem words_tokenText {kind : TokenKind} {cs rest : List Char} (h : TokenText kind cs)
    (blank : ∀ d ∈ rest.head?, d = ' ') :
    words (cs ++ rest) = ⟨kind, .ofList cs⟩ :: words rest := by
  obtain ⟨c, cs, rfl⟩ := List.exists_cons_of_ne_nil h.ne_nil
  rw [List.cons_append, words_cons, h.first_append blank]
  rfl

/-- Words that one blank keeps apart are found again. -/
theorem words_intercalate {ws : List Word} (spelt : ∀ w ∈ ws, TokenText w.kind w.text.toList) :
    words ([' '].intercalate (ws.map (·.text.toList))) = ws := by
  induction ws with
  | nil => simp
  | cons w ws ih =>
    obtain ⟨head, tail⟩ := List.forall_mem_cons.mp spelt
    have alone : (⟨w.kind, .ofList w.text.toList⟩ : Word) = w := by rw [String.ofList_toList]
    cases ws with
    | nil =>
      have last : words (w.text.toList ++ []) = _ :: words [] := words_tokenText head (by simp)
      rw [alone, words_nil, List.append_nil] at last
      simpa using last
    | cons u ws =>
      have later := ih tail
      rw [List.map_cons] at later
      rw [List.map_cons, List.map_cons, List.intercalate_cons_cons, List.append_assoc,
        words_tokenText head (by simp), alone, List.singleton_append, words_spacing (by decide),
        later]

theorem exists_tokenize_spaced {source : String} {tokens : List Token}
    (tokenized : Token.tokenize source = .ok tokens) :
    ∃ again, Token.tokenize (spaced tokens) = .ok again ∧
      again.map Token.word = tokens.map Token.word := by
  have spelt : ∀ w ∈ tokens.map Token.word, TokenText w.kind w.text.toList := by
    simp only [List.forall_mem_map]
    intro t ht
    obtain ⟨before, -, standing⟩ := (Token.tiling_of_tokenize tokenized).standing ht
    exact standing.text
  have whole : words (spaced tokens).toList = tokens.map Token.word := by
    have kept := words_intercalate spelt
    rw [List.map_map] at kept
    rw [spaced, String.toList_intercalate, List.map_map]
    exact kept
  have uncut : ∀ w ∈ words (spaced tokens).toList, ¬ w.IsCut := by
    rw [whole, Token.map_word_of_tokenize tokenized]
    exact Token.not_isCut_of_tokenize tokenized
  obtain ⟨again, found⟩ := Token.exists_tokenize uncut
  exact ⟨again, found, (Token.map_word_of_tokenize found).trans whole⟩

instance (w : Word) : Decidable w.IsCut := inferInstanceAs (Decidable (_ ∧ _ ∧ _))

/-- What ends a scan is the first word that is cut. -/
theorem Token.seen_error_ofLexemes (p : Place) (ls : List Lexeme) :
    (ofLexemes p ls).error?.map (Error.seen .blurred) =
      ((ls.filterMap Lexeme.word?).find? fun w => w.IsCut).map fun w =>
        .unterminatedAttribute 0 0 w.text .unseen := by
  induction ls generalizing p with
  | nil => rfl
  | cons l ls ih =>
    obtain ⟨kind, text⟩ := l
    cases kind with
    | blank => exact ih _
    | comment => exact ih _
    | token kind =>
      simp only [ofLexemes, Lexeme.word?, List.filterMap_cons, List.find?_cons]
      by_cases cut : Word.IsCut ⟨kind, .ofList text⟩
      · rw [if_pos ((isUnterminated_iff kind text).mpr cut), decide_eq_true cut]
        rfl
      · rw [if_neg fun h => cut ((isUnterminated_iff kind text).mp h), decide_eq_false cut]
        exact ih _

theorem Token.tokenize_agree {source other : String}
    (same : words source.toList = words other.toList) :
    Agree .blurred (List.Forall₂ fun t u => t.word = u.word) (tokenize source) (tokenize other) := by
  have ends : (scan source).error?.map (Error.seen .blurred) =
      (scan other).error?.map (Error.seen .blurred) := by
    rw [scan, scan, seen_error_ofLexemes, seen_error_ofLexemes]
    exact congrArg (fun ws : List Word => (ws.find? fun w => w.IsCut).map _) same
  rcases left : tokenize source with e | ts
  · rcases right : tokenize other with e' | us
    · rw [tokenize_eq_error_iff.mp left, tokenize_eq_error_iff.mp right] at ends
      exact .error (Option.some.inj ends)
    · rw [tokenize_eq_error_iff.mp left, (tokenize_eq_ok_iff.mp right).1] at ends
      cases ends
  · rcases right : tokenize other with e' | us
    · rw [(tokenize_eq_ok_iff.mp left).1, tokenize_eq_error_iff.mp right] at ends
      cases ends
    · rw [← map_word_of_tokenize left, ← map_word_of_tokenize right] at same
      exact .ok (forall₂_of_map_eq same fun _ _ _ _ h => h)

theorem Token.alike_of_word_eq {t u : Token} (h : t.word = u.word) : t.Alike .blurred u :=
  ⟨congrArg Word.kind h, fun _ => congrArg Word.text h, rfl⟩

/-- The words of a text can be written with single blanks between them. Whatever else has the same
words is read alike. -/
theorem parse_of_same_words (source : String) :
    (∀ tokens, Token.tokenize source = .ok tokens →
      tokens.map Token.word = words source.toList ∧
        ∃ again, Token.tokenize (spaced tokens) = .ok again ∧
          again.map Token.word = tokens.map Token.word) ∧
    ∀ other, words source.toList = words other.toList →
      Agree .blurred (Declared.Alike .blurred) (parse source) (parse other) := by
  constructor
  · intro tokens tokenized
    exact ⟨Token.map_word_of_tokenize tokenized, exists_tokenize_spaced tokenized⟩
  · intro other same
    apply parse_alike (fun _ _ => Token.alike_of_word_eq) (Token.tokenize_agree same)
    intro _ _ _ _ _ _ _ _ _ _ _ _ _
    rfl

/-- A text with comments and blanks, and one with neither. The arguments of the tag look like more
tags and a comment. -/
theorem parse_of_same_words_of_comments :
    let source := "model A \x7b # first\n  a : date @x(# @y) (@\t# last\n\x7d"
    let other := "model A\x7b\na:date@x(# @y)(@\n\x7d"
    (∃ tokens again, Token.tokenize source = .ok tokens ∧
      Token.tokenize "model A \x7b \n a : date @x(# @y) ( @ \n \x7d" = .ok again ∧
      again.map Token.word = tokens.map Token.word) ∧
    ∃ d d', parse source = .ok d ∧ parse other = .ok d' ∧ d.Alike .blurred d' := by
  intro source other
  have texts : (Token.tokenize source).map spaced =
      .ok "model A \x7b \n a : date @x(# @y) ( @ \n \x7d" := by decide +kernel
  obtain ⟨tokens, tokenized, whole⟩ := map_eq_ok_iff.mp texts
  obtain ⟨-, again, found, same⟩ := (parse_of_same_words source).1 tokens tokenized
  refine ⟨⟨tokens, again, tokenized, whole ▸ found, same⟩, ?_⟩
  have reads : (parse source).map (fun d => d.warnings.map Warning.kind) =
      .ok [.unknownAttribute "x"] := by decide +kernel
  obtain ⟨d, read, -⟩ := map_eq_ok_iff.mp reads
  have agree := (parse_of_same_words source).2 other (by decide +kernel)
  rw [read] at agree
  cases h : parse other with
  | error e =>
    rw [h] at agree
    cases agree
  | ok d' =>
    rw [h] at agree
    cases agree with
    | ok alike => exact ⟨d, d', read, rfl, alike⟩

end SchemaPlan.Source
