import SchemaPlan.Json.Text
import SchemaPlan.Json.Value

/-!
# Quoted strings

A string that was quoted is read back as it was, and skipped to the same place.
-/

namespace SchemaPlan.Json

theorem digit?_hexDigit {n : Nat} (h : n < 16) : Text.digit? 16 (hexDigit n) = some n := by
  revert n
  decide

/-- How a character is written in a string. -/
inductive Escaped (c : Char) : List Char → Prop
  | plain : c ≠ '"' → c ≠ '\\' → 0x20 ≤ c.toNat → Escaped c [c]
  | short {d} : shortEscape? d = some c → Escaped c ['\\', d]
  | code : c.toNat < 0x20 →
      Escaped c ['\\', 'u', '0', '0', hexDigit (c.toNat / 16), hexDigit (c.toNat % 16)]

theorem escaped_escapeChar (c : Char) : Escaped c (escapeChar c) := by
  unfold escapeChar
  by_cases quotes : c = '"'
  · rw [if_pos quotes, quotes]
    exact .short rfl
  rw [if_neg quotes]
  by_cases backslash : c = '\\'
  · rw [if_pos backslash, backslash]
    exact .short rfl
  rw [if_neg backslash]
  by_cases lf : c = '\n'
  · rw [if_pos lf, lf]
    exact .short rfl
  rw [if_neg lf]
  by_cases cr : c = '\r'
  · rw [if_pos cr, cr]
    exact .short rfl
  rw [if_neg cr]
  by_cases tab : c = '\t'
  · rw [if_pos tab, tab]
    exact .short rfl
  rw [if_neg tab]
  by_cases backspace : c = '\x08'
  · rw [if_pos backspace, backspace]
    exact .short rfl
  rw [if_neg backspace]
  by_cases formFeed : c = '\x0c'
  · rw [if_pos formFeed, formFeed]
    exact .short rfl
  rw [if_neg formFeed]
  by_cases control : c.toNat < 0x20
  · rw [if_pos control]
    exact .code control
  · rw [if_neg control]
    exact .plain quotes backslash (Nat.not_lt.mp control)

theorem hexQuad_code {c : Char} (h : c.toNat < 0x20) (rest : List Char) (m : Mark) :
    ∃ m', hexQuad ⟨'0' :: '0' :: hexDigit (c.toNat / 16) :: hexDigit (c.toNat % 16) :: rest, m⟩ =
      .ok (c.toNat, ⟨rest, m'⟩) := by
  have high := digit?_hexDigit (n := c.toNat / 16) (by omega)
  have low := digit?_hexDigit (n := c.toNat % 16) (by omega)
  have zero : Text.digit? 16 '0' = some 0 := by decide
  have value : c.toNat / 16 * 16 + c.toNat % 16 = c.toNat := by omega
  simp [hexQuad, hexQuad?, high, low, zero, value]

theorem readString_escape {c : Char} {cs : List Char} {m : Mark} {t : Input}
    (h : readEscape ⟨cs, m.after '\\'⟩ = .ok (c, t)) :
    readString ⟨'\\' :: cs, m⟩ = (readString t).map fun (ds, u) => (c :: ds, u) := by
  rw [readString]
  simp only [Input.next, if_neg (show '\\' ≠ '"' by decide), if_true]
  split
  · next failed =>
    rw [h] at failed
    cases failed
  · next read =>
    cases h.symm.trans read
    rfl

theorem skipString_escape {cs : List Char} {m : Mark} {t : Input}
    (h : skipEscape ⟨cs, m.after '\\'⟩ = .ok t) : skipString ⟨'\\' :: cs, m⟩ = skipString t := by
  rw [skipString]
  simp only [Input.next, if_neg (show '\\' ≠ '"' by decide), if_true]
  split
  · next failed =>
    rw [h] at failed
    cases failed
  · next skipped =>
    cases h.symm.trans skipped
    rfl

/-- One character of a quoted string is read, and skipped to the same place. -/
theorem readString_escaped {c : Char} {cs : List Char} (h : Escaped c cs) (rest : List Char)
    (m : Mark) :
    ∃ m', readString ⟨cs ++ rest, m⟩ =
        (readString ⟨rest, m'⟩).map (fun (ds, u) => (c :: ds, u)) ∧
      skipString ⟨cs ++ rest, m⟩ = skipString ⟨rest, m'⟩ := by
  cases h with
  | plain quotes backslash visible =>
    have visible : ¬ c.toNat < 0x20 := Nat.not_lt.mpr visible
    refine ⟨m.after c, ?_, ?_⟩
    · rw [List.singleton_append, readString]
      simp only [if_neg quotes, if_neg backslash, if_neg visible, Input.next]
    · rw [List.singleton_append, skipString]
      simp only [if_neg quotes, if_neg backslash, if_neg visible, Input.next]
  | @short d short =>
    refine ⟨(m.after '\\').after d, ?_, ?_⟩
    · apply readString_escape
      simp [readEscape, short, Input.next]
    · apply skipString_escape
      simp [skipEscape, short, Input.next]
  | code control =>
    obtain ⟨m', quad⟩ := hexQuad_code control rest ((m.after '\\').after 'u')
    have none : shortEscape? 'u' = none := rfl
    refine ⟨m', ?_, ?_⟩
    · apply readString_escape
      have noLow : ¬ (0xDC00 ≤ c.toNat ∧ c.toNat ≤ 0xDFFF) := by omega
      have noHigh : ¬ (0xD800 ≤ c.toNat ∧ c.toNat ≤ 0xDBFF) := by omega
      simp [readEscape, none, Input.next, quad, noLow, noHigh]
    · apply skipString_escape
      simp [skipEscape, none, Input.next, quad, Except.map]

/-- What was escaped up to the closing quote is read as it was, and skipped to the same place. -/
theorem readString_flatMap (cs rest : List Char) (m : Mark) :
    ∃ m', readString ⟨cs.flatMap escapeChar ++ '"' :: rest, m⟩ = .ok (cs, ⟨rest, m'⟩) ∧
      skipString ⟨cs.flatMap escapeChar ++ '"' :: rest, m⟩ = .ok ⟨rest, m'⟩ := by
  induction cs generalizing m with
  | nil =>
    refine ⟨m.after '"', ?_, ?_⟩
    · rw [List.flatMap_nil, List.nil_append, readString]
      simp only [if_true, Input.next]
    · rw [List.flatMap_nil, List.nil_append, skipString]
      simp only [if_true, Input.next]
  | cons c cs ih =>
    rw [List.flatMap_cons, List.append_assoc]
    obtain ⟨next, read, skip⟩ := readString_escaped (escaped_escapeChar c)
      (cs.flatMap escapeChar ++ '"' :: rest) m
    obtain ⟨m', readRest, skipRest⟩ := ih next
    refine ⟨m', ?_, ?_⟩
    · rw [read, readRest]
      rfl
    · rw [skip, skipRest]

end SchemaPlan.Json
