/-!
# Identifiers

The names of models and of fields: a letter or underscore, then letters, digits and underscores,
all ASCII. Case counts.
-/

namespace SchemaPlan

def isIdentifierStart (c : Char) : Bool := c.isAlpha || c == '_'

def isIdentifierPart (c : Char) : Bool := c.isAlphanum || c == '_'

theorem isIdentifierPart_of_start {c : Char} (h : isIdentifierStart c) : isIdentifierPart c := by
  simp only [isIdentifierStart, isIdentifierPart, Char.isAlphanum, Bool.or_eq_true] at *
  exact h.imp_left .inl

def isIdentifier : List Char → Bool
  | [] => false
  | c :: cs => isIdentifierStart c && cs.all isIdentifierPart

structure Identifier where
  text : String
  valid : isIdentifier text.toList = true
deriving DecidableEq

namespace Identifier

instance : ToString Identifier := ⟨text⟩

@[ext] theorem ext {a b : Identifier} (h : a.text = b.text) : a = b := by
  cases a; cases b; cases h; rfl

def ofString? (s : String) : Option Identifier :=
  if h : isIdentifier s.toList then some ⟨s, h⟩ else none

@[simp] theorem ofString?_text (a : Identifier) : ofString? a.text = some a := by
  simp [ofString?, a.valid]

theorem ofString?_eq_some_iff {s : String} {a : Identifier} :
    ofString? s = some a ↔ a.text = s := by
  constructor
  · intro h
    unfold ofString? at h
    split at h
    · cases h; rfl
    · cases h
  · rintro rfl
    exact ofString?_text a

end Identifier

end SchemaPlan
