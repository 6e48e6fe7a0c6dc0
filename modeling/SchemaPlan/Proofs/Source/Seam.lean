import SchemaPlan.Proofs.Source.Lexing

/-!
# Lexemes across a seam

Where two texts are joined by a line feed, no lexeme reaches from the one into the other, except that
a carriage return at the end of the first and the line feed are one line break.
-/

namespace SchemaPlan.Source

theorem eq_of_isLineBreak {b : Char} (h : isLineBreak b) : b = '\r' ∨ b = '\n' := by
  simpa [isLineBreak] using h

theorem argumentList_append_break {b : Char} (hb : isLineBreak b) (cs ds : List Char) :
    argumentList (cs ++ b :: ds) = ((argumentList cs).1, (argumentList cs).2 ++ b :: ds) := by
  have stop : isArgument b = false := by simp [isArgument, hb]
  have notParen : b ≠ '(' ∧ b ≠ ')' := by
    rcases eq_of_isLineBreak hb with rfl | rfl <;> decide
  cases cs with
  | nil =>
    unfold argumentList
    split
    · next _ _ same => exact absurd (List.cons.inj same).1 notParen.1
    · rfl
  | cons c cs =>
    by_cases opening : c = '('
    · subst opening
      rw [List.cons_append, argumentList, argumentList, dropWhile_append_break stop,
        takeWhile_append_break stop]
      cases h : cs.dropWhile isArgument with
      | nil =>
        rw [List.nil_append]
        split
        · next _ same => exact absurd (List.cons.inj same).1 notParen.2
        · rfl
      | cons d rest =>
        rw [List.cons_append]
        by_cases closing : d = ')'
        · subst closing
          rfl
        · simp [closing]
    · simp [argumentList, opening]

namespace Lexeme

/-- A carriage return is a line break of its own unless a line feed follows. -/
theorem first_return {cs : List Char} (h : cs.head? ≠ some '\n') :
    first '\r' cs = (token .newline ['\r'], cs) := by
  have alone : ∀ more, cs ≠ '\n' :: more := by
    rintro more rfl
    exact h rfl
  simp [first, alone, show isSpacing '\r' = false by decide,
    show isIdentifierStart '\r' = false by decide, punctuation]

/-- A lexeme ends before a line break, which it takes in only to complete the pair of the two. -/
theorem first_append_break {c b : Char} {cs : List Char} (hb : isLineBreak b) (ds : List Char)
    (apart : ¬ (c = '\r' ∧ cs = [] ∧ b = '\n')) :
    first c (cs ++ b :: ds) = ((first c cs).1, (first c cs).2 ++ b :: ds) := by
  have spacing : isSpacing b = false := by rcases eq_of_isLineBreak hb with rfl | rfl <;> decide
  have start : isIdentifierStart b = false := by
    rcases eq_of_isLineBreak hb with rfl | rfl <;> decide
  have part : isIdentifierPart b = false := by
    rcases eq_of_isLineBreak hb with rfl | rfl <;> decide
  have comment : (!isLineBreak b) = false := by simp [hb]
  unfold first
  split
  · rw [takeWhile_append_break spacing, dropWhile_append_break spacing]
  split
  · rw [takeWhile_append_break part, dropWhile_append_break part]
  by_cases hash : c = '#'
  · subst hash
    simp only [takeWhile_append_break (p := (!isLineBreak ·)) comment,
      dropWhile_append_break (p := (!isLineBreak ·)) comment]
  by_cases return_ : c = '\r'
  · subst return_
    cases cs with
    | nil =>
      have plain : b ≠ '\n' := fun e => apart ⟨rfl, rfl, e⟩
      simp [plain]
    | cons d cs => by_cases feed : d = '\n' <;> simp [feed]
  by_cases tag : c = '@'
  · subst tag
    cases cs with
    | nil => simp [start, punctuation]
    | cons d cs =>
      simp only [List.cons_append, takeWhile_append_break part, dropWhile_append_break part,
        argumentList_append_break hb]
      split <;> rfl
  simp [return_, tag]

theorem scan_append_break {b : Char} {cs : List Char} (hb : isLineBreak b) (ds : List Char)
    (apart : cs.getLast? = some '\r' → b ≠ '\n') :
    scan (cs ++ b :: ds) = scan cs ++ scan (b :: ds) := by
  fun_induction scan cs with
  | case1 => rfl
  | case2 c cs ih =>
    have whole := first_append c cs
    rw [List.cons_append, scan_cons, first_append_break hb ds, List.cons_append, ih]
    · intro last
      refine apart ?_
      rw [← whole, List.getLast?_append, last]
      rfl
    · rintro ⟨rfl, rfl, rfl⟩
      exact apart rfl rfl

/-- The lexemes of a text up to the line breaks at its end, which a line feed may change, and what
stands for the line feed. -/
theorem exists_scan_lineFeed (cs : List Char) :
    ∃ ls ends lineFeed, scan cs = ls ++ ends ∧ (∀ l ∈ ends, l.kind = .token .newline) ∧
      lineFeed.kind = .token .newline ∧
      ∀ ds, scan (cs ++ '\n' :: ds) = ls ++ lineFeed :: scan ds := by
  -- A carriage return at the end is a lexeme of its own there, and half of one before the line feed.
  by_cases last : cs.getLast? = some '\r'
  · obtain ⟨cs, rfl⟩ := List.getLast?_eq_some_iff.mp last
    have single : scan ['\r'] = [token .newline ['\r']] := by
      rw [scan_cons, first_return (by simp), scan_nil]
    refine ⟨scan cs, [token .newline ['\r']], token .newline ['\r', '\n'], ?_, by simp [token], rfl,
      ?_⟩
    · rw [scan_append_break (by decide) _ (by simp), single]
    · intro ds
      rw [List.append_assoc, List.singleton_append, scan_append_break (by decide) _ (by simp),
        scan_cons '\r']
      rfl
  · refine ⟨scan cs, [], token .newline ['\n'], by simp, by simp, rfl, fun ds => ?_⟩
    rw [scan_append_break (by decide) _ fun h => absurd h last, scan_cons '\n']
    rfl

end Lexeme

end SchemaPlan.Source
