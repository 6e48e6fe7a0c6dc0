import SchemaPlan.Proofs.Source.Seam
import SchemaPlan.Proofs.Source.Tag

/-!
# Texts of tokens

Each kind of token has texts of its own. What stands at the start of a text is a blank, a comment,
the longest text of a token, or a tag whose arguments the end of the line cuts short.
-/

namespace SchemaPlan.Source

/-- The characters that are tokens of their own kind. -/
def marks : List (Char × TokenKind) :=
  [('{', .openBrace), ('}', .closeBrace), (':', .colon), (',', .comma), ('(', .openParen),
    (')', .closeParen)]

/-- The texts of each kind of token. -/
inductive TokenText : TokenKind → List Char → Prop
  | mark {c kind} : (c, kind) ∈ marks → TokenText kind [c]
  | lineBreak {c} : isLineBreak c → TokenText .newline [c]
  | lineBreakPair : TokenText .newline ['\r', '\n']
  | model : TokenText .model ['m', 'o', 'd', 'e', 'l']
  | identifier {name} : isIdentifier name → name ≠ ['m', 'o', 'd', 'e', 'l'] →
      TokenText .identifier name
  | tag {cs} : TagText cs → TokenText .tag cs
  /-- A character that starts nothing else. -/
  | other {c} : ¬ isSpacing c → ¬ isLineBreak c → c ≠ '#' → ¬ isIdentifierStart c →
      c ∉ marks.map Prod.fst → TokenText .other [c]

/-- A tag whose argument list has not closed. -/
inductive CutText : List Char → Prop
  | intro {name inner} : isIdentifier name → (∀ c ∈ inner, isArgument c) →
      CutText ('@' :: name ++ '(' :: inner)

/-- A text that is cut off in one piece, of a token or of a tag that does not close. -/
def TokenLike (cs : List Char) : Prop := (∃ kind, TokenText kind cs) ∨ CutText cs

/-- What may come first in a text, and what follows it. -/
inductive Leads : Lexeme → List Char → Prop
  | blank {cs rest} : (∀ c ∈ cs, isSpacing c) → Leads ⟨.blank, cs⟩ rest
  | comment {cs rest} : (∀ c ∈ cs, ¬ isLineBreak c) → (∀ c ∈ rest.head?, isLineBreak c) →
      Leads ⟨.comment, '#' :: cs⟩ rest
  | token {kind cs rest} : TokenText kind cs → Leads (.token kind cs) rest
  | cut {cs rest} : CutText cs → Leads (.token .tag cs) rest

theorem mem_marks_or_other {c : Char} (h : ¬ isLineBreak c) :
    (c, Lexeme.punctuation c) ∈ marks ∨
      Lexeme.punctuation c = .other ∧ c ∉ marks.map Prod.fst := by
  unfold Lexeme.punctuation
  split
  all_goals first
    | exact .inl (by decide)
    | exact absurd (by decide) h
    | exact .inr ⟨rfl, by simp_all [marks]⟩

theorem tokenText_word {name : List Char} (h : isIdentifier name) :
    ∃ kind, Lexeme.word name = .token kind name ∧ TokenText kind name := by
  by_cases keyword : name = ['m', 'o', 'd', 'e', 'l']
  · subst keyword
    exact ⟨.model, rfl, .model⟩
  · exact ⟨.identifier, by simp [Lexeme.word, keyword], .identifier h keyword⟩

theorem leads_tag {name : List Char} (h : isIdentifier name) (cs : List Char) :
    Leads (.token .tag ('@' :: name ++ (argumentList cs).1)) (argumentList cs).2 := by
  unfold argumentList
  split
  · next cs =>
    have inside : ∀ c ∈ cs.takeWhile isArgument, isArgument c :=
      fun c hc => List.mem_takeWhile_imp hc
    split
    · rw [← List.append_assoc]
      exact .token (.tag (.closed h inside))
    · exact .cut (.intro h inside)
  · rw [List.append_nil]
    exact .token (.tag (.bare h))

theorem leads_first (c : Char) (cs : List Char) :
    Leads (Lexeme.first c cs).1 (Lexeme.first c cs).2 := by
  unfold Lexeme.first
  split
  · next spacing =>
    exact .blank (List.forall_mem_cons.mpr ⟨spacing, fun d hd => List.mem_takeWhile_imp hd⟩)
  next spacing =>
  split
  · next start =>
    obtain ⟨kind, word, text⟩ := tokenText_word (Lexeme.isIdentifier_takeWhile start cs)
    rw [word]
    exact .token text
  next start =>
  split
  · refine .comment (fun d hd => by simpa using List.mem_takeWhile_imp hd) fun d hd => ?_
    simpa using head?_dropWhile (p := (!isLineBreak ·)) _ d hd
  · exact .token .lineBreakPair
  · split
    · next start => exact leads_tag (Lexeme.isIdentifier_takeWhile start _) _
    · exact .token (.other (c := '@') (by decide) (by decide) (by decide) (by decide) (by decide))
  · next hash _ _ =>
    by_cases lineBreak : isLineBreak c
    · have kind : Lexeme.punctuation c = .newline := by
        rcases eq_of_isLineBreak lineBreak with rfl | rfl <;> rfl
      rw [kind]
      exact .token (.lineBreak lineBreak)
    · rcases mem_marks_or_other lineBreak with mark | ⟨other, unmarked⟩
      · exact .token (.mark mark)
      · rw [other]
        exact .token (.other spacing lineBreak hash start unmarked)

section Longest

variable {name inner : List Char}

theorem first_name (h : isIdentifier name) {c : Char} {cs more : List Char}
    (whole : c :: cs = name ++ more) :
    Lexeme.first c cs =
      (Lexeme.word (name ++ more.takeWhile isIdentifierPart), more.dropWhile isIdentifierPart) := by
  cases name with
  | nil => cases h
  | cons d name =>
    rw [List.cons_append] at whole
    obtain ⟨rfl, rfl⟩ := List.cons.inj whole
    simp only [isIdentifier, Bool.and_eq_true, List.all_eq_true] at h
    rw [first_of_start h.1, List.takeWhile_append_of_pos h.2, List.dropWhile_append_of_pos h.2]
    rfl

theorem first_at (h : isIdentifier name) (more : List Char) :
    Lexeme.first '@' (name ++ more) =
      (.token .tag ('@' :: name ++ more.takeWhile isIdentifierPart ++
        (argumentList (more.dropWhile isIdentifierPart)).1),
        (argumentList (more.dropWhile isIdentifierPart)).2) := by
  cases name with
  | nil => cases h
  | cons d name =>
    simp only [isIdentifier, Bool.and_eq_true, List.all_eq_true] at h
    rw [List.cons_append, first_tag h.1, List.takeWhile_append_of_pos h.2,
      List.dropWhile_append_of_pos h.2]
    rfl

/-- An argument list starts right after the name. -/
theorem first_at_list (h : isIdentifier name) (more : List Char) :
    Lexeme.first '@' (name ++ '(' :: more) =
      (.token .tag ('@' :: name ++ (argumentList ('(' :: more)).1),
        (argumentList ('(' :: more)).2) := by
  have stop : ∀ d ∈ ('(' :: more).head?, isIdentifierPart d = false := by
    rintro _ ⟨⟩
    decide
  rw [first_at h, takeWhile_stop stop, dropWhile_stop stop, List.append_nil]

theorem first_closed_tag (h : isIdentifier name) (inside : ∀ c ∈ inner, isArgument c)
    (rest : List Char) :
    Lexeme.first '@' (name ++ '(' :: (inner ++ ')' :: rest)) =
      (.token .tag ('@' :: name ++ '(' :: inner ++ [')']), rest) := by
  rw [first_at_list h, argumentList_closed inside]
  simp

theorem length_argumentList (inside : ∀ c ∈ inner, isArgument c) (more : List Char) :
    inner.length + 1 ≤ (argumentList ('(' :: (inner ++ more))).1.length := by
  have whole :
      (argumentList ('(' :: (inner ++ more))).1 = '(' :: (inner ++ more).takeWhile isArgument ∨
      (argumentList ('(' :: (inner ++ more))).1 =
        '(' :: (inner ++ more).takeWhile isArgument ++ [')'] := by
    simp only [argumentList]
    split
    · exact .inr rfl
    · exact .inl rfl
  rw [List.takeWhile_append_of_pos inside] at whole
  rcases whole with whole | whole
  · simp [whole]
  · simp only [whole, List.length_append, List.length_cons]
    omega

end Longest

/-- What starts a text and is no blank or comment is as long as it can be. -/
theorem length_le_first {c : Char} {cs text : List Char} (h : TokenLike text)
    (starts : text <+: c :: cs) : text.length ≤ (Lexeme.first c cs).1.text.length := by
  have single : 1 ≤ (Lexeme.first c cs).1.text.length :=
    List.length_pos_iff.mpr (Lexeme.first_text_ne_nil c cs)
  have named {name : List Char} (hname : isIdentifier name) (starts : name <+: c :: cs) :
      name.length ≤ (Lexeme.first c cs).1.text.length := by
    obtain ⟨more, whole⟩ := starts
    rw [first_name hname whole.symm]
    simp [Lexeme.word, Lexeme.token]
  obtain ⟨more, whole⟩ := starts
  rcases h with ⟨kind, h⟩ | h
  · cases h with
    | mark => exact single
    | lineBreak => exact single
    | other => exact single
    | lineBreakPair =>
      cases whole
      exact Nat.le_refl 2
    | model => exact named (by decide) ⟨more, whole⟩
    | identifier hname => exact named hname ⟨more, whole⟩
    | tag text =>
      cases text with
      | bare hname =>
        rw [List.cons_append] at whole
        obtain ⟨rfl, rfl⟩ := List.cons.inj whole
        rw [first_at hname]
        simp [Lexeme.token]
      | closed hname inside =>
        simp only [List.cons_append, List.append_assoc] at whole
        obtain ⟨rfl, rfl⟩ := List.cons.inj whole
        rw [first_closed_tag hname inside]
        simp [Lexeme.token]
  · cases h with
    | intro hname inside =>
      simp only [List.cons_append, List.append_assoc] at whole
      obtain ⟨rfl, rfl⟩ := List.cons.inj whole
      have := length_argumentList inside more
      rw [first_at_list hname]
      simp only [Lexeme.token, List.cons_append, List.length_cons, List.length_append]
      omega

theorem TokenText.ne_nil {kind : TokenKind} {cs : List Char} (h : TokenText kind cs) : cs ≠ [] := by
  cases h with
  | identifier name =>
    rintro rfl
    cases name
  | tag text => cases text <;> simp
  | _ => simp

section Lexemes

variable {c : Char} {name rest : List Char}

theorem first_mark {kind : TokenKind} (h : (c, kind) ∈ marks) (rest : List Char) :
    Lexeme.first c rest = (.token kind [c], rest) := by
  simp only [marks, List.mem_cons, Prod.mk.injEq, List.not_mem_nil, or_false] at h
  rcases h with ⟨rfl, rfl⟩ | ⟨rfl, rfl⟩ | ⟨rfl, rfl⟩ | ⟨rfl, rfl⟩ | ⟨rfl, rfl⟩ | ⟨rfl, rfl⟩ <;> rfl

theorem first_single_break (h : isLineBreak c) (stop : rest.head? ≠ some '\n') :
    Lexeme.first c rest = (.token .newline [c], rest) := by
  rcases eq_of_isLineBreak h with rfl | rfl
  · exact Lexeme.first_return stop
  · rfl

theorem first_whole_name (h : isIdentifier name) {cs : List Char} (whole : c :: cs = name)
    (stop : ∀ d ∈ rest.head?, isIdentifierPart d = false) :
    Lexeme.first c (cs ++ rest) = (Lexeme.word name, rest) := by
  rw [first_name h (by rw [← List.cons_append, whole]), takeWhile_stop stop, dropWhile_stop stop,
    List.append_nil]

theorem first_bare_tag (h : isIdentifier name)
    (stop : ∀ d ∈ rest.head?, isIdentifierPart d = false ∧ d ≠ '(') :
    Lexeme.first '@' (name ++ rest) = (.token .tag ('@' :: name), rest) := by
  rw [first_at h, takeWhile_stop fun d hd => (stop d hd).1, dropWhile_stop fun d hd => (stop d hd).1,
    argumentList_absent fun d hd => (stop d hd).2, List.append_nil, List.append_nil]

/-- The sign of a tag is a lexeme of its own where no name follows. -/
theorem first_other (h : TokenText .other [c]) (stop : ∀ d ∈ rest.head?, ¬ isIdentifierStart d) :
    Lexeme.first c rest = (.token .other [c], rest) := by
  cases h with
  | mark mark => simp [marks] at mark
  | other spacing lineBreak hash start unmarked =>
    have kind : Lexeme.punctuation c = .other := by
      rcases mem_marks_or_other lineBreak with mark | ⟨other, -⟩
      · exact absurd (List.mem_map_of_mem mark) unmarked
      · exact other
    have return_ : c ≠ '\r' := by
      rintro rfl
      exact lineBreak rfl
    by_cases tag : c = '@'
    · subst tag
      cases rest with
      | nil => rfl
      | cons d rest =>
        simp [Lexeme.first, show ¬ isIdentifierStart d from stop d rfl,
          show isSpacing '@' = false by decide, show isIdentifierStart '@' = false by decide]
    · simp [Lexeme.first, spacing, start, kind, return_, tag]

end Lexemes

/-- A text of a token is one lexeme where the text around it ends or goes on with a blank. -/
theorem TokenText.first_append {kind : TokenKind} {c : Char} {cs rest : List Char}
    (h : TokenText kind (c :: cs)) (blank : ∀ d ∈ rest.head?, d = ' ') :
    Lexeme.first c (cs ++ rest) = (.token kind (c :: cs), rest) := by
  have stop {p : Char → Prop} (hp : p ' ') : ∀ d ∈ rest.head?, p d :=
    fun d hd => blank d hd ▸ hp
  generalize whole : c :: cs = text at h ⊢
  cases h with
  | mark mark =>
    cases whole
    exact first_mark mark rest
  | lineBreak lineBreak =>
    cases whole
    refine first_single_break lineBreak fun feed => ?_
    exact absurd (blank '\n' feed) (by decide)
  | lineBreakPair =>
    cases whole
    rfl
  | model => exact first_whole_name (by decide) whole (stop (by decide))
  | identifier name other =>
    rw [first_whole_name name whole (stop (by decide)), Lexeme.word, if_neg other]
  | tag text =>
    cases text with
    | bare name =>
      cases whole
      exact first_bare_tag name (stop (by decide))
    | @closed name inner h inside =>
      rw [List.cons_append, List.cons_append] at whole
      obtain ⟨rfl, rfl⟩ := List.cons.inj whole
      have split : name ++ '(' :: inner ++ [')'] ++ rest = name ++ '(' :: (inner ++ ')' :: rest) := by
        simp
      rw [split, first_closed_tag h inside]
  | other spacing lineBreak hash start unmarked =>
    cases whole
    exact first_other (.other spacing lineBreak hash start unmarked) (stop (by decide))

/-- A text of a token is the only lexeme in it. -/
theorem TokenText.first {kind : TokenKind} {c : Char} {cs : List Char}
    (h : TokenText kind (c :: cs)) : Lexeme.first c cs = (.token kind (c :: cs), []) := by
  have alone : Lexeme.first c (cs ++ []) = (.token kind (c :: cs), []) := h.first_append (by simp)
  rwa [List.append_nil] at alone

/-- The text tells the kind. -/
theorem TokenText.unique {kind kind' : TokenKind} {cs : List Char} (h : TokenText kind cs)
    (h' : TokenText kind' cs) : kind = kind' := by
  obtain ⟨c, cs, rfl⟩ := List.exists_cons_of_ne_nil h.ne_nil
  have same := h.first.symm.trans h'.first
  simpa [Lexeme.token] using same

theorem TokenLike.ne_nil {cs : List Char} (h : TokenLike cs) : cs ≠ [] := by
  rcases h with ⟨kind, h⟩ | ⟨name, inside⟩
  · exact h.ne_nil
  · simp

/-- Neither a blank nor a comment starts like this. -/
theorem TokenLike.start {cs : List Char} (h : TokenLike cs) :
    ∀ c ∈ cs.head?, ¬ isSpacing c ∧ c ≠ '#' := by
  have first {d : Char} (cs : List Char) (h : ¬ isSpacing d ∧ d ≠ '#') :
      ∀ c ∈ (d :: cs).head?, ¬ isSpacing c ∧ c ≠ '#' := by
    rintro _ ⟨⟩
    exact h
  have named {name : List Char} (h : isIdentifier name) :
      ∀ c ∈ name.head?, ¬ isSpacing c ∧ c ≠ '#' := by
    cases name with
    | nil => cases h
    | cons d name =>
      simp only [isIdentifier, Bool.and_eq_true] at h
      refine first name ⟨isSpacing_of_start h.1, ?_⟩
      rintro rfl
      exact absurd h.1 (by decide)
  have tag (cs : List Char) := first (d := '@') cs (by decide)
  rcases h with ⟨kind, h⟩ | h
  · cases h with
    | mark mark =>
      have plain : ∀ m ∈ marks, ¬ isSpacing m.1 ∧ m.1 ≠ '#' := by decide
      exact first [] (plain _ mark)
    | lineBreak lineBreak =>
      rcases eq_of_isLineBreak lineBreak with rfl | rfl <;> exact first [] (by decide)
    | lineBreakPair => exact first _ (by decide)
    | model => exact named (by decide)
    | identifier name => exact named name
    | tag text => cases text <;> exact tag _
    | other spacing _ hash => exact first [] ⟨spacing, hash⟩
  · cases h with
    | intro => exact tag _

theorem TokenText.not_isUnterminated {kind : TokenKind} {cs : List Char} (h : TokenText kind cs) :
    Token.isUnterminated kind cs = false := by
  cases h with
  | mark mark =>
    have other : ∀ m ∈ marks, Token.isUnterminated m.2 [m.1] = false := by decide
    exact other _ mark
  | tag text =>
    cases text with
    | bare name =>
      have noParen := not_mem_of_isIdentifier name (c := '(') (by decide)
      simp [Token.isUnterminated, noParen]
    | closed =>
      simp only [Token.isUnterminated, List.getLast?_concat, bne_self_eq_false, Bool.and_false]
  | _ => rfl

theorem CutText.isUnterminated {cs : List Char} (h : CutText cs) :
    Token.isUnterminated .tag cs := by
  cases h with
  | @intro name inner _ inside =>
    have last : ('(' :: inner).getLast? ≠ some ')' := by
      intro last
      rcases List.mem_cons.mp (List.mem_of_getLast? last) with closing | mem
      · exact absurd closing (by decide)
      · exact not_mem_of_isArgument inside mem
    have whole : ('@' :: name ++ '(' :: inner).getLast? = ('(' :: inner).getLast? := by
      rw [List.getLast?_append_of_ne_nil _ (by simp)]
    simp only [Token.isUnterminated, whole, bne_iff_ne.mpr last, Bool.and_true, beq_self_eq_true,
      Bool.true_and, List.contains_iff_mem]
    simp

theorem TokenText.not_cutText {kind : TokenKind} {cs : List Char} (h : TokenText kind cs) :
    ¬ CutText cs := by
  intro cut
  have start : 1 < cs.length ∧ cs.head? = some '@' := by
    cases cut
    simp only [List.cons_append, List.length_cons, List.length_append, List.head?_cons, and_true]
    omega
  have tag : kind = .tag := by
    cases h with
    | mark => simp at start
    | lineBreak => simp at start
    | lineBreakPair => simp at start
    | model => simp at start
    | identifier name =>
      exact absurd (List.mem_of_head? start.2) (not_mem_of_isIdentifier name (by decide))
    | tag => rfl
    | other => simp at start
  subst tag
  have closed := h.not_isUnterminated
  rw [cut.isUnterminated] at closed
  cases closed

end SchemaPlan.Source
