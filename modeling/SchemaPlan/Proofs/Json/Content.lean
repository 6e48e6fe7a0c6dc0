/-!
# JSON texts

What a JSON text is, apart from how it is read: lexemes with blanks between them, which are the
lexemes of one value. Strings and numbers are kept as they are spelt. What a string stands for once
its escapes are undone is a relation of its own.
-/

namespace SchemaPlan.Json

inductive Atom where
  | null
  | bool (value : Bool)
  | number (digits : List Char)
  /-- The text between the quotes. -/
  | string (raw : List Char)

/-- A value as it is written. Members keep their order, and keys may be repeated. -/
inductive Content where
  | atom (atom : Atom)
  | array (items : List Content)
  | object (members : List (List Char × Content))

inductive Lexeme where
  | mark (c : Char)
  | atom (atom : Atom)

namespace Content

mutual

def lexemes : Content → List Lexeme
  | .atom a => [.atom a]
  | .array [] => [.mark '[', .mark ']']
  | .array (v :: rest) => .mark '[' :: v.lexemes ++ moreItems rest
  | .object [] => [.mark '{', .mark '}']
  | .object ((key, v) :: rest) =>
    .mark '{' :: .atom (.string key) :: .mark ':' :: v.lexemes ++ moreMembers rest

/-- The items after the first, up to the closing bracket. -/
def moreItems : List Content → List Lexeme
  | [] => [.mark ']']
  | v :: rest => .mark ',' :: v.lexemes ++ moreItems rest

/-- The members after the first, up to the closing brace. -/
def moreMembers : List (List Char × Content) → List Lexeme
  | [] => [.mark '}']
  | (key, v) :: rest =>
    .mark ',' :: .atom (.string key) :: .mark ':' :: v.lexemes ++ moreMembers rest

end

theorem moreItems_concat (vs : List Content) (v : Content) :
    moreItems (vs ++ [v]) =
      vs.flatMap (fun w => .mark ',' :: w.lexemes) ++ .mark ',' :: v.lexemes ++ [.mark ']'] := by
  induction vs with
  | nil => simp [moreItems]
  | cons w vs ih =>
    rw [List.cons_append, moreItems, ih]
    simp

theorem moreMembers_concat (es : List (List Char × Content)) (key : List Char) (v : Content) :
    moreMembers (es ++ [(key, v)]) =
      es.flatMap (fun e => .mark ',' :: .atom (.string e.1) :: .mark ':' :: e.2.lexemes) ++
        .mark ',' :: .atom (.string key) :: .mark ':' :: v.lexemes ++ [.mark '}'] := by
  induction es with
  | nil => simp [moreMembers]
  | cons e es ih =>
    rw [List.cons_append, moreMembers, ih]
    simp

/-- A comma before each of some rows, or behind each. -/
theorem flatMap_cons_concat {α β : Type} (b : β) (f : α → List β) (as : List α) :
    as.flatMap (fun a => b :: f a) ++ [b] = b :: as.flatMap (fun a => f a ++ [b]) := by
  induction as with
  | nil => rfl
  | cons a as ih => simp [ih]

/-- An array up to the comma behind some items. -/
def openArray (vs : List Content) : List Lexeme :=
  .mark '[' :: vs.flatMap fun v => v.lexemes ++ [.mark ',']

/-- An object up to the comma behind some members. -/
def openObject (es : List (List Char × Content)) : List Lexeme :=
  .mark '{' :: es.flatMap fun e => .atom (.string e.1) :: .mark ':' :: e.2.lexemes ++ [.mark ',']

theorem openArray_concat (vs : List Content) (v : Content) :
    openArray (vs ++ [v]) = openArray vs ++ v.lexemes ++ [.mark ','] := by
  simp [openArray]

theorem openObject_concat (es : List (List Char × Content)) (key : List Char) (v : Content) :
    openObject (es ++ [(key, v)]) =
      openObject es ++ [.atom (.string key), .mark ':'] ++ v.lexemes ++ [.mark ','] := by
  simp [openObject]

theorem lexemes_array_concat (vs : List Content) (v : Content) :
    lexemes (.array (vs ++ [v])) = openArray vs ++ v.lexemes ++ [.mark ']'] := by
  cases vs with
  | nil => simp [openArray, lexemes, moreItems]
  | cons w vs =>
    have commas := flatMap_cons_concat (Lexeme.mark ',') lexemes vs
    rw [List.cons_append, lexemes, moreItems_concat]
    rw [List.append_cons _ (Lexeme.mark ','), commas]
    simp [openArray]

theorem lexemes_object_concat (es : List (List Char × Content)) (key : List Char) (v : Content) :
    lexemes (.object (es ++ [(key, v)])) =
      openObject es ++ [.atom (.string key), .mark ':'] ++ v.lexemes ++ [.mark '}'] := by
  cases es with
  | nil => simp [openObject, lexemes, moreMembers]
  | cons e es =>
    have commas := flatMap_cons_concat (Lexeme.mark ',')
      (fun e : List Char × Content => .atom (.string e.1) :: .mark ':' :: e.2.lexemes) es
    rw [List.cons_append, lexemes, moreMembers_concat]
    rw [List.append_cons _ (Lexeme.mark ','), commas]
    simp [openObject]

/-- What a value starts with. -/
def opening : Content → Lexeme
  | .atom a => .atom a
  | .array _ => .mark '['
  | .object _ => .mark '{'

theorem exists_lexemes_eq (v : Content) : ∃ ls, v.lexemes = v.opening :: ls := by
  rcases v with a | (_ | ⟨v, vs⟩) | (_ | ⟨⟨key, v⟩, es⟩)
  all_goals
    rw [lexemes]
    exact ⟨_, rfl⟩

/-- A value does not start where an array ends. -/
theorem closing_ne_lexemes (v : Content) {rest rest' : List Lexeme} :
    .mark ']' :: rest ≠ v.lexemes ++ rest' := by
  obtain ⟨ls, first⟩ := v.exists_lexemes_eq
  rw [first]
  intro same
  cases v <;> cases (List.cons.inj same).1

mutual

/-- The lexemes of a value tell where it ends and which value it is. -/
theorem lexemes_append_inj (v w : Content) {rest rest' : List Lexeme}
    (h : v.lexemes ++ rest = w.lexemes ++ rest') : v = w ∧ rest = rest' := by
  have first : v.opening = w.opening := by
    obtain ⟨ls, hv⟩ := v.exists_lexemes_eq
    obtain ⟨ms, hw⟩ := w.exists_lexemes_eq
    rw [hv, hw] at h
    exact (List.cons.inj h).1
  cases v with
  | atom a =>
    cases w with
    | atom b =>
      cases first
      exact ⟨rfl, (List.cons.inj h).2⟩
    | array => cases first
    | object => cases first
  | array vs =>
    cases w with
    | atom => cases first
    | object => cases first
    | array ws =>
      match vs, ws with
      | [], [] => exact ⟨rfl, (List.cons.inj (List.cons.inj h).2).2⟩
      | [], w :: ws =>
        rw [lexemes, lexemes, List.cons_append, List.cons_append, List.append_assoc] at h
        exact absurd (List.cons.inj h).2 (closing_ne_lexemes w)
      | v :: vs, [] =>
        rw [lexemes, lexemes, List.cons_append, List.cons_append, List.append_assoc] at h
        exact absurd (List.cons.inj h).2.symm (closing_ne_lexemes v)
      | v :: vs, w :: ws =>
        simp only [lexemes, List.cons_append, List.append_assoc, List.cons.injEq, true_and] at h
        obtain ⟨rfl, more⟩ := lexemes_append_inj v w h
        obtain ⟨rfl, tail⟩ := moreItems_append_inj vs ws more
        exact ⟨rfl, tail⟩
  | object vs =>
    cases w with
    | atom => cases first
    | array => cases first
    | object ws =>
      match vs, ws with
      | [], [] => exact ⟨rfl, (List.cons.inj (List.cons.inj h).2).2⟩
      | [], _ :: _ => cases (List.cons.inj (List.cons.inj h).2).1
      | _ :: _, [] => cases (List.cons.inj (List.cons.inj h).2).1
      | (key, v) :: vs, (key', w) :: ws =>
        simp only [lexemes, List.cons_append, List.append_assoc, List.cons.injEq, true_and,
          Lexeme.atom.injEq, Atom.string.injEq] at h
        obtain ⟨rfl, inner⟩ := h
        obtain ⟨rfl, more⟩ := lexemes_append_inj v w inner
        obtain ⟨rfl, tail⟩ := moreMembers_append_inj vs ws more
        exact ⟨rfl, tail⟩

theorem moreItems_append_inj (vs ws : List Content) {rest rest' : List Lexeme}
    (h : moreItems vs ++ rest = moreItems ws ++ rest') : vs = ws ∧ rest = rest' := by
  match vs, ws with
  | [], [] => exact ⟨rfl, (List.cons.inj h).2⟩
  | [], _ :: _ => cases (List.cons.inj h).1
  | _ :: _, [] => cases (List.cons.inj h).1
  | v :: vs, w :: ws =>
    simp only [moreItems, List.cons_append, List.append_assoc, List.cons.injEq, true_and] at h
    obtain ⟨rfl, more⟩ := lexemes_append_inj v w h
    obtain ⟨rfl, tail⟩ := moreItems_append_inj vs ws more
    exact ⟨rfl, tail⟩

theorem moreMembers_append_inj (vs ws : List (List Char × Content)) {rest rest' : List Lexeme}
    (h : moreMembers vs ++ rest = moreMembers ws ++ rest') : vs = ws ∧ rest = rest' := by
  match vs, ws with
  | [], [] => exact ⟨rfl, (List.cons.inj h).2⟩
  | [], _ :: _ => cases (List.cons.inj h).1
  | _ :: _, [] => cases (List.cons.inj h).1
  | (key, v) :: vs, (key', w) :: ws =>
    simp only [moreMembers, List.cons_append, List.append_assoc, List.cons.injEq, true_and,
      Lexeme.atom.injEq, Atom.string.injEq] at h
    obtain ⟨rfl, inner⟩ := h
    obtain ⟨rfl, more⟩ := lexemes_append_inj v w inner
    obtain ⟨rfl, tail⟩ := moreMembers_append_inj vs ws more
    exact ⟨rfl, tail⟩

end

theorem lexemes_inj {v w : Content} (h : v.lexemes = w.lexemes) : v = w :=
  (lexemes_append_inj v w (congrArg (· ++ []) h)).1

end Content

/-- A hexadecimal digit, in either case, and its value. -/
def IsHexDigit (c : Char) (n : Nat) : Prop :=
  "0123456789abcdef".toList[n]? = some c ∨ "0123456789ABCDEF".toList[n]? = some c

instance (c : Char) (n : Nat) : Decidable (IsHexDigit c n) := inferInstanceAs (Decidable (_ ∨ _))

/-- Four hexadecimal digits and their value. -/
inductive IsQuad : List Char → Nat → Prop
  | intro {a b c d i j k l} : IsHexDigit a i → IsHexDigit b j → IsHexDigit c k → IsHexDigit d l →
      IsQuad [a, b, c, d] (((i * 16 + j) * 16 + k) * 16 + l)

/-- The letters of one-letter escapes, each with the character it stands for. -/
def shortEscapes : List (Char × Char) :=
  [('"', '"'), ('\\', '\\'), ('/', '/'), ('b', '\x08'), ('f', '\x0c'), ('n', '\n'), ('r', '\r'),
    ('t', '\t')]

/-- What may stand between quotes. -/
inductive StringText : List Char → Prop
  | nil : StringText []
  | plain {c cs} : c ≠ '"' → c ≠ '\\' → 0x20 ≤ c.toNat → StringText cs → StringText (c :: cs)
  | short {c d cs} : (c, d) ∈ shortEscapes → StringText cs → StringText ('\\' :: c :: cs)
  | code {quad n cs} : IsQuad quad n → StringText cs → StringText ('\\' :: 'u' :: quad ++ cs)

/-- One digit or more. -/
def IsDigits (cs : List Char) : Prop := cs ≠ [] ∧ ∀ c ∈ cs, c.isDigit

/-- Digits before the point. A zero stands alone. -/
def WholeText (cs : List Char) : Prop := cs = ['0'] ∨ IsDigits cs ∧ cs.head? ≠ some '0'

def FractionText (cs : List Char) : Prop := cs = [] ∨ ∃ digits, cs = '.' :: digits ∧ IsDigits digits

def ExponentText (cs : List Char) : Prop :=
  cs = [] ∨ ∃ c sign digits, cs = c :: sign ++ digits ∧ (c = 'e' ∨ c = 'E') ∧
    (sign = [] ∨ sign = ['+'] ∨ sign = ['-']) ∧ IsDigits digits

inductive NumberText : List Char → Prop
  | intro {sign whole fraction exponent} : sign = [] ∨ sign = ['-'] → WholeText whole →
      FractionText fraction → ExponentText exponent →
      NumberText (sign ++ whole ++ fraction ++ exponent)

/-- How a lexeme is spelt. -/
inductive Lexeme.Spelt : Lexeme → List Char → Prop
  | mark {c} : c ∈ ['[', ']', '{', '}', ',', ':'] → Spelt (.mark c) [c]
  | null : Spelt (.atom .null) ['n', 'u', 'l', 'l']
  | true : Spelt (.atom (.bool true)) ['t', 'r', 'u', 'e']
  | false : Spelt (.atom (.bool false)) ['f', 'a', 'l', 's', 'e']
  | number {digits} : NumberText digits → Spelt (.atom (.number digits)) digits
  | string {raw} : StringText raw → Spelt (.atom (.string raw)) ('"' :: raw ++ ['"'])

/-- A number does not go on in the text after it. Other lexemes end by themselves. -/
def Lexeme.Ends (l : Lexeme) (rest : List Char) : Prop :=
  match l with
  | .atom (.number _) => ∀ c ∈ rest.head?, ¬ c.isDigit ∧ c ≠ '.' ∧ c ≠ 'e' ∧ c ≠ 'E'
  | _ => True

/-- The lexemes of a text. -/
inductive Lexed : List Char → List Lexeme → Prop
  | nil : Lexed [] []
  | blank {c cs ls} : c ∈ [' ', '\t', '\n', '\r'] → Lexed cs ls → Lexed (c :: cs) ls
  | lexeme {l text rest ls} : l.Spelt text → l.Ends rest → Lexed rest ls →
      Lexed (text ++ rest) (l :: ls)

theorem Lexed.mark {c : Char} {rest : List Char} {ls : List Lexeme}
    (h : c ∈ ['[', ']', '{', '}', ',', ':']) (more : Lexed rest ls) :
    Lexed (c :: rest) (.mark c :: ls) := .lexeme (.mark h) trivial more

theorem Lexed.string {raw rest : List Char} {ls : List Lexeme} (h : StringText raw)
    (more : Lexed rest ls) : Lexed ('"' :: (raw ++ '"' :: rest)) (.atom (.string raw) :: ls) := by
  have whole := Lexed.lexeme (.string h) trivial more
  rwa [List.append_assoc] at whole

/-- The text is a JSON text, of this value. -/
def Written (text : String) (v : Content) : Prop := Lexed text.toList v.lexemes

/-- What the text between quotes stands for. Surrogates stand for a character in pairs only. -/
inductive Spells : List Char → List Char → Prop
  | nil : Spells [] []
  | plain {c cs ds} : c ≠ '"' → c ≠ '\\' → 0x20 ≤ c.toNat → Spells cs ds →
      Spells (c :: cs) (c :: ds)
  | short {c d cs ds} : (c, d) ∈ shortEscapes → Spells cs ds → Spells ('\\' :: c :: cs) (d :: ds)
  | code {quad n cs ds} : IsQuad quad n → n < 0xD800 ∨ 0xDFFF < n → Spells cs ds →
      Spells ('\\' :: 'u' :: quad ++ cs) (.ofNat n :: ds)
  | pair {high low m n cs ds} : IsQuad high m → 0xD800 ≤ m → m ≤ 0xDBFF → IsQuad low n →
      0xDC00 ≤ n → n ≤ 0xDFFF → Spells cs ds →
      Spells ('\\' :: 'u' :: high ++ '\\' :: 'u' :: low ++ cs)
        (.ofNat ((m - 0xD800) * 0x400 + (n - 0xDC00) + 0x10000) :: ds)

/-- The string that a raw text stands for. -/
def Names (raw : List Char) (s : String) : Prop := Spells raw s.toList

end SchemaPlan.Json
