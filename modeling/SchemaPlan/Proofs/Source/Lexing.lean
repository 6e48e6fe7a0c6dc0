import SchemaPlan.Proofs.Runs
import SchemaPlan.Proofs.Source.Word

/-!
# Words at the start of a text

What the first word of a text is, when what follows it cannot belong to it, and that blanks before a
word do not matter.
-/

namespace SchemaPlan.Source

@[simp] theorem words_nil : words [] = [] := by simp [words]

theorem words_cons (c : Char) (cs : List Char) :
    words (c :: cs) =
      (Lexeme.first c cs).1.word?.toList ++ words (Lexeme.first c cs).2 := by
  rw [words, Lexeme.scan_cons, List.filterMap_cons]
  rcases (Lexeme.first c cs).1.word? with _ | w <;> rfl

theorem first_of_isSpacing {c : Char} (h : isSpacing c) (cs : List Char) :
    Lexeme.first c cs = (⟨.blank, c :: cs.takeWhile isSpacing⟩, cs.dropWhile isSpacing) :=
  if_pos h

theorem words_dropWhile (cs : List Char) : words (cs.dropWhile isSpacing) = words cs := by
  cases cs with
  | nil => rfl
  | cons c cs =>
    by_cases hc : isSpacing c
    · rw [List.dropWhile_cons_of_pos hc, words_cons, first_of_isSpacing hc]
      rfl
    · rw [List.dropWhile_cons_of_neg hc]

theorem words_spacing {c : Char} (h : isSpacing c) (cs : List Char) :
    words (c :: cs) = words cs := by
  rw [words_cons, first_of_isSpacing h]
  exact words_dropWhile cs

/-- A name as a word. -/
def Word.named (name : String) : Word := ⟨if name = "model" then .model else .identifier, name⟩

theorem Word.isName_named (name : String) : (named name).kind.isName := by
  unfold named
  split <;> rfl

theorem Word.named_kind {name : String} (h : name ≠ "model") : (named name).kind = .identifier :=
  if_neg h

theorem isSpacing_of_start {c : Char} (h : isIdentifierStart c) : ¬ isSpacing c := by
  intro spacing
  simp only [isSpacing, Bool.or_eq_true, beq_iff_eq] at spacing
  rcases spacing with (rfl | rfl) | rfl <;> exact absurd h (by decide)

theorem first_of_start {c : Char} (h : isIdentifierStart c) (cs : List Char) :
    Lexeme.first c cs =
      (Lexeme.word (c :: cs.takeWhile isIdentifierPart), cs.dropWhile isIdentifierPart) :=
  (if_neg (isSpacing_of_start h)).trans (if_pos h)

theorem words_named {name : String} {rest : List Char} (h : isIdentifier name.toList)
    (stop : ∀ c ∈ rest.head?, isIdentifierPart c = false) :
    words (name.toList ++ rest) = .named name :: words rest := by
  have spelt : Lexeme.word? (Lexeme.word name.toList) = some (.named name) := by
    simp [Lexeme.word, Lexeme.token, Lexeme.word?, Word.named, ← String.toList_inj]
  generalize hcs : name.toList = cs at h spelt
  cases cs with
  | nil => cases h
  | cons c cs =>
    simp only [isIdentifier, Bool.and_eq_true, List.all_eq_true] at h
    rw [List.cons_append, words_cons, first_of_start h.1, takeWhile_append_stop h.2 stop,
      dropWhile_append_stop h.2 stop, spelt]
    rfl

/-- A character that is a word on its own. -/
def Word.mark (c : Char) : Word := ⟨Lexeme.punctuation c, .singleton c⟩

theorem words_mark {c : Char} (h : c ∈ ['{', '}', ':', '(', ')', '\n']) (rest : List Char) :
    words (c :: rest) = .mark c :: words rest := by
  simp only [List.mem_cons, List.not_mem_nil, or_false] at h
  rw [words_cons]
  rcases h with rfl | rfl | rfl | rfl | rfl | rfl <;> rfl

theorem first_tag {d : Char} (h : isIdentifierStart d) (ds : List Char) :
    Lexeme.first '@' (d :: ds) =
      (Lexeme.token .tag ('@' :: d :: ds.takeWhile isIdentifierPart ++
        (argumentList (ds.dropWhile isIdentifierPart)).1),
        (argumentList (ds.dropWhile isIdentifierPart)).2) := by
  simp [Lexeme.first, h, show isSpacing '@' = false by decide,
    show isIdentifierStart '@' = false by decide]

theorem words_at {name : String} {after : List Char} (h : isIdentifier name.toList)
    (stop : ∀ c ∈ after.head?, isIdentifierPart c = false) :
    words ('@' :: name.toList ++ after) =
      ⟨.tag, "@" ++ name ++ .ofList (argumentList after).1⟩ :: words (argumentList after).2 := by
  have spelt : ("@" ++ name ++ .ofList (argumentList after).1 : String) =
      .ofList ('@' :: name.toList ++ (argumentList after).1) := by
    simp [← String.toList_inj]
  rw [spelt]
  generalize name.toList = cs at h
  cases cs with
  | nil => cases h
  | cons d ds =>
    simp only [isIdentifier, Bool.and_eq_true, List.all_eq_true] at h
    rw [List.cons_append, words_cons, List.cons_append, first_tag h.1,
      takeWhile_append_stop h.2 stop, dropWhile_append_stop h.2 stop]
    rfl

theorem argumentList_absent {rest : List Char} (stop : ∀ c ∈ rest.head?, c ≠ '(') :
    argumentList rest = ([], rest) := by
  cases rest with
  | nil => rfl
  | cons c rest => simp [argumentList, show c ≠ '(' from stop c rfl]

theorem words_tag {name : String} {rest : List Char} (h : isIdentifier name.toList)
    (stop : ∀ c ∈ rest.head?, isIdentifierPart c = false ∧ c ≠ '(') :
    words ('@' :: name.toList ++ rest) = ⟨.tag, "@" ++ name⟩ :: words rest := by
  rw [words_at h fun c hc => (stop c hc).1, argumentList_absent fun c hc => (stop c hc).2]
  simp

theorem argumentList_closed {inner : List Char} (inside : ∀ c ∈ inner, isArgument c)
    (rest : List Char) :
    argumentList ('(' :: (inner ++ ')' :: rest)) = ('(' :: inner ++ [')'], rest) := by
  have closing : ∀ c ∈ (')' :: rest).head?, isArgument c = false := by simp [isArgument]
  simp [argumentList, takeWhile_append_stop inside closing, dropWhile_append_stop inside closing]

theorem words_tagWith {name arguments : String} (h : isIdentifier name.toList)
    (inside : ∀ c ∈ arguments.toList, isArgument c) (rest : List Char) :
    words ('@' :: name.toList ++ '(' :: (arguments.toList ++ ')' :: rest)) =
      ⟨.tag, "@" ++ name ++ "(" ++ arguments ++ ")"⟩ :: words rest := by
  rw [words_at h (by simp [isIdentifierPart]), argumentList_closed inside]
  simp [String.append_assoc]

end SchemaPlan.Source
