import SchemaPlan.Proofs.Text.Blank
import SchemaPlan.Schema.Attribute
import SchemaPlan.Schema.FieldType

/-!
# Characters of identifiers

Identifiers hold no blanks and no marks, so they stand out from what surrounds them.
-/

namespace SchemaPlan

theorem isIdentifierPart_of_isIdentifier {cs : List Char} (h : isIdentifier cs) :
    ∀ c ∈ cs, isIdentifierPart c := by
  cases cs with
  | nil => cases h
  | cons c cs =>
    simp only [isIdentifier, Bool.and_eq_true, List.all_eq_true] at h
    intro d hd
    rcases List.mem_cons.mp hd with rfl | hd
    · exact isIdentifierPart_of_start h.1
    · exact h.2 d hd

theorem Identifier.text_ne_empty (name : Identifier) : name.text ≠ "" := by
  intro empty
  have valid := name.valid
  rw [empty] at valid
  cases valid

theorem not_mem_of_isIdentifier {cs : List Char} (h : isIdentifier cs) {c : Char}
    (hc : isIdentifierPart c = false) : c ∉ cs := by
  intro mem
  have part := isIdentifierPart_of_isIdentifier h c mem
  rw [hc] at part
  cases part

theorem not_isBlank_of_isIdentifierPart {c : Char} (h : isIdentifierPart c) :
    ¬ Text.isBlank c := by
  have range : 0x30 ≤ c.toNat ∧ c.toNat ≤ 0x7a := by
    unfold isIdentifierPart Char.isAlphanum Char.isAlpha Char.isUpper Char.isLower Char.isDigit at h
    simp only [Bool.or_eq_true, Bool.and_eq_true, decide_eq_true_eq, beq_iff_eq, ge_iff_le,
      UInt32.le_iff_toNat_le] at h
    change (((0x41 ≤ c.toNat ∧ c.toNat ≤ 0x5a) ∨ (0x61 ≤ c.toNat ∧ c.toNat ≤ 0x7a)) ∨
      (0x30 ≤ c.toNat ∧ c.toNat ≤ 0x39)) ∨ c = '_' at h
    rcases h with ((h | h) | h) | rfl
    · omega
    · omega
    · omega
    · decide
  simp only [Text.isBlank, Bool.or_eq_true, Bool.and_eq_true, decide_eq_true_eq, beq_iff_eq]
  omega

theorem trim_identifier (a : Identifier) : Text.trim a.text = a.text := by
  have blankless : ∀ c ∈ a.text.toList, ¬ Text.isBlank c :=
    fun c hc => not_isBlank_of_isIdentifierPart (isIdentifierPart_of_isIdentifier a.valid c hc)
  apply Text.trim_eq_self_iff.mpr
  exact ⟨fun c hc => blankless c (List.mem_of_head? hc),
    fun c hc => blankless c (List.mem_of_getLast? hc)⟩

theorem isIdentifier_primitive (p : Primitive) : isIdentifier p.name.toList := by
  cases p <;> decide

theorem isIdentifier_flagName (f : Flag) : isIdentifier f.name.toList := by cases f <;> decide

end SchemaPlan
