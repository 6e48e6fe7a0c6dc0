import Mathlib.Data.List.TakeWhile
import SchemaPlan.Source.Token

/-!
# Words

The tokens of a text without their places: what they are and how they are spelt. Every lexeme has one
of a few forms, which its kind and text tell.
-/

namespace SchemaPlan.Source

structure Word where
  kind : TokenKind
  text : String
deriving DecidableEq, Repr

def Token.word (t : Token) : Word := ⟨t.kind, t.text⟩

@[simp] theorem Token.word_kind (t : Token) : t.word.kind = t.kind := rfl

@[simp] theorem Token.word_text (t : Token) : t.word.text = t.text := rfl

def Lexeme.word? (l : Lexeme) : Option Word :=
  match l.kind with
  | .token kind => some ⟨kind, .ofList l.text⟩
  | _ => none

/-- The words of a whole text, those after a lexical error included. -/
def words (cs : List Char) : List Word := (Lexeme.scan cs).filterMap Lexeme.word?

/-- A tag whose argument list the end of its line cuts short. -/
def Word.IsCut (w : Word) : Prop :=
  w.kind = .tag ∧ '(' ∈ w.text.toList ∧ w.text.toList.getLast? ≠ some ')'

theorem Token.isUnterminated_iff (kind : TokenKind) (text : List Char) :
    isUnterminated kind text = true ↔ Word.IsCut ⟨kind, .ofList text⟩ := by
  simp [isUnterminated, Word.IsCut, and_assoc]

namespace Token

theorem ofLexemes_of_not_isCut (p : Place) (ls : List Lexeme)
    (uncut : ∀ w ∈ ls.filterMap Lexeme.word?, ¬ w.IsCut) :
    (ofLexemes p ls).error? = none ∧
      (ofLexemes p ls).tokens.map word = ls.filterMap Lexeme.word? := by
  induction ls generalizing p with
  | nil => exact ⟨rfl, rfl⟩
  | cons l ls ih =>
    obtain ⟨kind, text⟩ := l
    cases kind with
    | blank => exact ih _ (by simpa [Lexeme.word?] using uncut)
    | comment => exact ih _ (by simpa [Lexeme.word?] using uncut)
    | token kind =>
      simp only [Lexeme.word?, List.filterMap_cons, List.forall_mem_cons] at uncut
      obtain ⟨head, tail⟩ := uncut
      rw [← isUnterminated_iff] at head
      have rest := ih (p.after ⟨.token kind, text⟩) tail
      simp only [ofLexemes, head, Lexeme.word?, List.filterMap_cons, Bool.false_eq_true, if_false,
        List.map_cons]
      exact ⟨rest.1, congrArg _ rest.2⟩

theorem not_isCut_of_ofLexemes {p : Place} {ls : List Lexeme}
    (clean : (ofLexemes p ls).error? = none) : ∀ w ∈ ls.filterMap Lexeme.word?, ¬ w.IsCut := by
  induction ls generalizing p with
  | nil => simp
  | cons l ls ih =>
    obtain ⟨kind, text⟩ := l
    cases kind with
    | blank => simpa [Lexeme.word?] using ih clean
    | comment => simpa [Lexeme.word?] using ih clean
    | token kind =>
      simp only [ofLexemes] at clean
      split at clean
      · cases clean
      · next head =>
        rw [isUnterminated_iff] at head
        simp only [Lexeme.word?, List.filterMap_cons, List.forall_mem_cons]
        exact ⟨head, ih clean⟩

theorem tokenize_eq_ok_iff {source : String} {tokens : List Token} :
    tokenize source = .ok tokens ↔
      (scan source).error? = none ∧ (scan source).tokens = tokens := by
  unfold tokenize
  rcases h : scan source with ⟨found, _ | e⟩ <;> simp

theorem tokenize_eq_error_iff {source : String} {e : Error} :
    tokenize source = .error e ↔ (scan source).error? = some e := by
  unfold tokenize
  rcases scan source with ⟨found, _ | e'⟩ <;> simp

theorem not_isCut_of_tokenize {source : String} {tokens : List Token}
    (h : tokenize source = .ok tokens) : ∀ w ∈ words source.toList, ¬ w.IsCut :=
  not_isCut_of_ofLexemes (tokenize_eq_ok_iff.mp h).1

theorem map_word_of_tokenize {source : String} {tokens : List Token}
    (h : tokenize source = .ok tokens) : tokens.map word = words source.toList := by
  obtain ⟨clean, rfl⟩ := tokenize_eq_ok_iff.mp h
  exact (ofLexemes_of_not_isCut .start _ (not_isCut_of_ofLexemes clean)).2

/-- A text is cut into tokens unless one of its tags is cut short. -/
theorem exists_tokenize {source : String} (uncut : ∀ w ∈ words source.toList, ¬ w.IsCut) :
    ∃ tokens, tokenize source = .ok tokens :=
  ⟨_, tokenize_eq_ok_iff.mpr ⟨(ofLexemes_of_not_isCut .start _ uncut).1, rfl⟩⟩

end Token

/-- What may follow the name of a tag. -/
inductive ArgumentText : List Char → Prop
  | absent : ArgumentText []
  | cut {cs} : (∀ c ∈ cs, isArgument c) → ArgumentText ('(' :: cs)
  | closed {cs} : (∀ c ∈ cs, isArgument c) → ArgumentText ('(' :: cs ++ [')'])

inductive Lexeme.Formed : Lexeme → Prop
  | blank {cs} : (∀ c ∈ cs, isSpacing c) → Formed ⟨.blank, cs⟩
  | comment {cs} : (∀ c ∈ cs, ¬ isLineBreak c) → Formed ⟨.comment, '#' :: cs⟩
  | word {cs} : isIdentifier cs → Formed (word cs)
  | lineBreak : Formed (token .newline ['\r', '\n'])
  | tag {name arguments} : isIdentifier name → ArgumentText arguments →
      Formed (token .tag ('@' :: name ++ arguments))
  | single {c} : Formed (token (punctuation c) [c])

theorem argumentText_argumentList (cs : List Char) : ArgumentText (argumentList cs).1 := by
  unfold argumentList
  split
  · next cs =>
    have inner : ∀ c ∈ cs.takeWhile isArgument, isArgument c := fun c h => List.mem_takeWhile_imp h
    split
    · exact .closed inner
    · exact .cut inner
  · exact .absent

namespace Lexeme

theorem isIdentifier_takeWhile {c : Char} (h : isIdentifierStart c) (cs : List Char) :
    isIdentifier (c :: cs.takeWhile isIdentifierPart) := by
  simp only [isIdentifier, h, Bool.true_and, List.all_eq_true]
  intro d hd
  exact List.mem_takeWhile_imp hd

theorem formed_first (c : Char) (cs : List Char) : (first c cs).1.Formed := by
  unfold first
  split
  · next spacing =>
    refine .blank fun d hd => ?_
    rcases List.mem_cons.mp hd with rfl | hd
    · exact spacing
    · exact List.mem_takeWhile_imp hd
  split
  · next start => exact .word (isIdentifier_takeWhile start cs)
  split
  · exact .comment fun d hd => by simpa using List.mem_takeWhile_imp hd
  · exact .lineBreak
  · next d ds _ _ =>
    split
    · next start =>
      exact .tag (isIdentifier_takeWhile start ds) (argumentText_argumentList _)
    · exact .single (c := '@')
  · exact .single

theorem formed_of_mem_scan {cs : List Char} {l : Lexeme} (h : l ∈ scan cs) : l.Formed := by
  fun_induction scan cs with
  | case1 => simp at h
  | case2 c cs ih =>
    rcases List.mem_cons.mp h with rfl | h
    · exact formed_first c cs
    · exact ih h

end Lexeme

end SchemaPlan.Source
