import SchemaPlan.Proofs.Json.Content
import SchemaPlan.Proofs.Json.Text
import SchemaPlan.Proofs.Result

/-!
# What is read between quotes

A string is skipped exactly if it may stand between quotes, and what is read is what it stands for.
-/

namespace SchemaPlan.Json

/-- Characters in a row that are the digits from some value on. -/
theorem isHexDigit_of_row (first last value : Nat)
    (row : ∀ i ≤ last, IsHexDigit (.ofNat (first + i)) (i + value)) {c : Char}
    (least : first ≤ c.toNat) (most : c.toNat ≤ first + last) :
    IsHexDigit c (c.toNat - first + value) := by
  have digit := row (c.toNat - first) (Nat.sub_le_iff_le_add'.mpr most)
  rwa [Nat.add_sub_cancel' least, Char.ofNat_toNat] at digit

theorem digit?_eq_some_iff {c : Char} {n : Nat} : Text.digit? 16 c = some n ↔ IsHexDigit c n := by
  constructor
  · intro h
    have isDigit : c.isDigit ↔ '0' ≤ c ∧ c ≤ '9' := by
      unfold Char.isDigit
      simp [Char.le_def]
    unfold Text.digit? at h
    split at h
    · next digit =>
      obtain ⟨least, most⟩ := isDigit.mp digit
      obtain ⟨-, same⟩ := Option.ite_none_right_eq_some.mp h
      cases same
      exact isHexDigit_of_row 0x30 9 0 (by decide) least most
    · split at h
      · next letter =>
        obtain ⟨-, same⟩ := Option.ite_none_right_eq_some.mp h
        cases same
        exact isHexDigit_of_row 0x61 5 10 (by decide) letter.1 letter.2
      · split at h
        · next letter =>
          obtain ⟨-, same⟩ := Option.ite_none_right_eq_some.mp h
          cases same
          exact isHexDigit_of_row 0x41 5 10 (by decide) letter.1 letter.2
        · cases h
  · rintro (h | h) <;> obtain ⟨inside, rfl⟩ := List.getElem?_eq_some_iff.mp h
    · revert n
      decide
    · revert n
      decide

theorem shortEscape?_eq_some_iff {c d : Char} :
    shortEscape? c = some d ↔ (c, d) ∈ shortEscapes := by
  constructor
  · intro h
    unfold shortEscape? at h
    split at h <;> cases h <;> decide
  · have each : ∀ e ∈ shortEscapes, shortEscape? e.1 = some e.2 := by decide
    exact each (c, d)

theorem hexQuad?_eq_some_iff {cs rest : List Char} {n : Nat} :
    hexQuad? cs = some (n, rest) ↔ ∃ quad, cs = quad ++ rest ∧ IsQuad quad n := by
  constructor
  · intro h
    unfold hexQuad? at h
    split at h
    · next a b c d rest =>
      simp only [Option.bind_eq_bind, Option.bind_eq_some_iff, Option.pure_def, Option.some.injEq,
        Prod.mk.injEq, digit?_eq_some_iff] at h
      obtain ⟨i, ha, j, hb, k, hc, l, hd, rfl, rfl⟩ := h
      exact ⟨[a, b, c, d], rfl, .intro ha hb hc hd⟩
    · cases h
  · rintro ⟨_, rfl, ⟨ha, hb, hc, hd⟩⟩
    rw [← digit?_eq_some_iff] at ha hb hc hd
    simp [hexQuad?, ha, hb, hc, hd]

theorem exists_quad_of_hexQuad {s t : Input} {n : Nat} (h : hexQuad s = .ok (n, t)) :
    ∃ quad, s.rest = quad ++ t.rest ∧ IsQuad quad n := by
  unfold hexQuad at h
  split at h
  · next found =>
    cases h
    exact hexQuad?_eq_some_iff.mp found
  · cases h

theorem hexQuad_of_isQuad {quad : List Char} {n : Nat} (h : IsQuad quad n) (rest : List Char)
    (m : Mark) : ∃ m', hexQuad ⟨quad ++ rest, m⟩ = .ok (n, ⟨rest, m'⟩) := by
  have found : hexQuad? (quad ++ rest) = some (n, rest) := hexQuad?_eq_some_iff.mpr ⟨quad, rfl, h⟩
  refine ⟨m.afterBytes 4 (quad ++ rest), ?_⟩
  simp only [hexQuad, found]

theorem exists_escape_of_skipEscape {s t : Input} (h : skipEscape s = .ok t) :
    (∃ c d, s.rest = c :: t.rest ∧ (c, d) ∈ shortEscapes) ∨
      ∃ quad n, s.rest = 'u' :: quad ++ t.rest ∧ IsQuad quad n := by
  unfold skipEscape at h
  split at h
  · cases h
  · next c cs hs =>
    split at h
    · next short =>
      obtain ⟨d, hd⟩ := Option.isSome_iff_exists.mp short
      cases h
      exact .inl ⟨c, d, hs, shortEscape?_eq_some_iff.mp hd⟩
    · split at h
      · cases h
      · next letter =>
        obtain rfl := Decidable.not_not.mp letter
        obtain ⟨⟨n, u⟩, found, rfl⟩ := map_eq_ok_iff.mp h
        obtain ⟨quad, whole, value⟩ := exists_quad_of_hexQuad found
        exact .inr ⟨quad, n, by rw [hs, List.cons_append, ← whole]; rfl, value⟩

/-- Nothing is skipped but what may stand between quotes. -/
theorem exists_stringText_of_skipString {s t : Input} (h : skipString s = .ok t) :
    ∃ raw, s.rest = raw ++ '"' :: t.rest ∧ StringText raw := by
  fun_induction skipString s with
  | case1 => cases h
  | case2 s cs hs =>
    cases h
    exact ⟨[], hs, .nil⟩
  | case3 => cases h
  | case4 s cs u hs _ escape ih =>
    obtain ⟨raw, rest, text⟩ := ih h
    rcases exists_escape_of_skipEscape escape with ⟨c, d, first, short⟩ | ⟨quad, n, first, value⟩
    · exact ⟨'\\' :: c :: raw, by rw [hs, show cs = _ from first, rest]; rfl, .short short text⟩
    · refine ⟨'\\' :: 'u' :: quad ++ raw, ?_, .code value text⟩
      rw [hs, show cs = _ from first, rest]
      simp
  | case5 => cases h
  | case6 s c cs hs quote escape control ih =>
    obtain ⟨raw, rest, text⟩ := ih h
    refine ⟨c :: raw, by rw [hs, show cs = _ from rest]; rfl, ?_⟩
    exact .plain quote escape (Nat.not_lt.mp control) text

/-- What may stand between quotes is skipped up to the closing quote. -/
theorem skipString_stringText {raw : List Char} (h : StringText raw) (rest : List Char) (m : Mark) :
    ∃ m', skipString ⟨raw ++ '"' :: rest, m⟩ = .ok ⟨rest, m'⟩ := by
  induction h generalizing m with
  | nil =>
    refine ⟨m.after '"', ?_⟩
    rw [List.nil_append, skipString]
    simp only [if_true, Input.next]
  | @plain c cs quote escape control _ ih =>
    obtain ⟨m', skipped⟩ := ih (m.after c)
    refine ⟨m', ?_⟩
    rw [List.cons_append, skipString]
    simp only [if_neg quote, if_neg escape, if_neg (Nat.not_lt.mpr control), Input.next, skipped]
  | @short c d cs short _ ih =>
    obtain ⟨m', skipped⟩ := ih ((m.after '\\').after c)
    refine ⟨m', ?_⟩
    rw [List.cons_append, List.cons_append, ← skipped]
    apply skipString_escape
    simp [skipEscape, shortEscape?_eq_some_iff.mpr short, Input.next]
  | @code quad n cs value _ ih =>
    obtain ⟨next, found⟩ := hexQuad_of_isQuad value (cs ++ '"' :: rest) ((m.after '\\').after 'u')
    obtain ⟨m', skipped⟩ := ih next
    refine ⟨m', ?_⟩
    rw [List.cons_append, List.cons_append, List.cons_append, List.cons_append, List.append_assoc,
      ← skipped]
    apply skipString_escape
    have none : shortEscape? 'u' = none := rfl
    simp [skipEscape, none, Input.next, found, Except.map]

/-- Between quotes, a text ends where the string does. -/
theorem StringText.append_inj {raw raw' rest rest' : List Char} (h : StringText raw)
    (h' : StringText raw') (same : raw ++ '"' :: rest = raw' ++ '"' :: rest') :
    raw = raw' ∧ rest = rest' := by
  obtain ⟨m, skipped⟩ := skipString_stringText h rest .start
  obtain ⟨m', skipped'⟩ := skipString_stringText h' rest' .start
  rw [same, skipped'] at skipped
  cases skipped
  exact ⟨List.append_cancel_right same, rfl⟩

theorem exists_quad_of_lowSurrogate {m : Nat} {s t : Input} {c : Char}
    (h : lowSurrogate m s = .ok (c, t)) :
    ∃ low n, s.rest = '\\' :: 'u' :: low ++ t.rest ∧ IsQuad low n ∧ 0xDC00 ≤ n ∧ n ≤ 0xDFFF ∧
      c = .ofNat ((m - 0xD800) * 0x400 + (n - 0xDC00) + 0x10000) := by
  unfold lowSurrogate at h
  split at h
  · cases h
  · next d ds hs =>
    split at h
    · cases h
    · next escape =>
      obtain rfl := Decidable.not_not.mp escape
      simp only [Input.next] at h
      split at h
      · cases h
      · next e es _ =>
        split at h
        · cases h
        · next letter =>
          obtain rfl := Decidable.not_not.mp letter
          split at h
          · cases h
          · next n u found =>
            split at h
            · cases h
            · next range =>
              simp only [Except.ok.injEq, Prod.mk.injEq] at h
              obtain ⟨rfl, rfl⟩ := h
              obtain ⟨low, whole, value⟩ := exists_quad_of_hexQuad found
              refine ⟨low, n, ?_, value, by omega, by omega, rfl⟩
              simp only at whole
              rw [hs, whole]
              rfl

/-- An escape that is read, and what it stands for in front of more text. -/
theorem spells_of_readEscape {s t : Input} {c : Char} (h : readEscape s = .ok (c, t)) :
    ∃ escape, s.rest = escape ++ t.rest ∧
      ∀ cs ds, Spells cs ds → Spells ('\\' :: escape ++ cs) (c :: ds) := by
  unfold readEscape at h
  split at h
  · cases h
  · next d cs hs =>
    split at h
    · next short =>
      cases h
      exact ⟨[d], hs, fun _ _ more => .short (shortEscape?_eq_some_iff.mp short) more⟩
    · split at h
      · cases h
      · next letter =>
        obtain rfl := Decidable.not_not.mp letter
        split at h
        · cases h
        · next n u found =>
          obtain ⟨quad, whole, value⟩ := exists_quad_of_hexQuad found
          have whole : cs = quad ++ u.rest := whole
          split at h
          · cases h
          · next notLow =>
            split at h
            · next high =>
              obtain ⟨low, k, rest, lowValue, least, most, code⟩ := exists_quad_of_lowSurrogate h
              refine ⟨'u' :: quad ++ '\\' :: 'u' :: low, by rw [hs, whole, rest]; simp, ?_⟩
              intro cs ds more
              rw [code]
              have pair := Spells.pair value high.1 high.2 lowValue least most more
              simpa using pair
            · next notHigh =>
              cases h
              refine ⟨'u' :: quad, by rw [hs, whole]; simp, ?_⟩
              intro cs ds more
              exact .code value (by omega) more

/-- What is read is what stands between the quotes. -/
theorem exists_spells_of_readString {s t : Input} {ds : List Char}
    (h : readString s = .ok (ds, t)) : ∃ raw, s.rest = raw ++ '"' :: t.rest ∧ Spells raw ds := by
  fun_induction readString s generalizing ds with
  | case1 => cases h
  | case2 s cs hs =>
    cases h
    exact ⟨[], hs, .nil⟩
  | case3 => cases h
  | case4 s cs d u hs _ escape ih =>
    obtain ⟨⟨more, v⟩, read, same⟩ := map_eq_ok_iff.mp h
    cases same
    obtain ⟨raw, rest, spells⟩ := ih read
    obtain ⟨text, first, stands⟩ := spells_of_readEscape escape
    refine ⟨'\\' :: text ++ raw, ?_, stands _ _ spells⟩
    rw [hs, show cs = _ from first, rest]
    simp
  | case5 => cases h
  | case6 s c cs hs quote escape control ih =>
    obtain ⟨⟨more, v⟩, read, same⟩ := map_eq_ok_iff.mp h
    cases same
    obtain ⟨raw, rest, spells⟩ := ih read
    refine ⟨c :: raw, by rw [hs, show cs = _ from rest]; rfl, ?_⟩
    exact .plain quote escape (Nat.not_lt.mp control) spells

theorem readEscape_code {quad : List Char} {n : Nat} (h : IsQuad quad n)
    (plain : n < 0xD800 ∨ 0xDFFF < n) (rest : List Char) (m : Mark) :
    ∃ m', readEscape ⟨'u' :: quad ++ rest, m⟩ = .ok (.ofNat n, ⟨rest, m'⟩) := by
  obtain ⟨m', found⟩ := hexQuad_of_isQuad h rest (m.after 'u')
  have none : shortEscape? 'u' = none := rfl
  have notLow : ¬ (0xDC00 ≤ n ∧ n ≤ 0xDFFF) := by omega
  have notHigh : ¬ (0xD800 ≤ n ∧ n ≤ 0xDBFF) := by omega
  refine ⟨m', ?_⟩
  simp only [readEscape, List.cons_append, none, Input.next, found, if_neg notLow, if_neg notHigh,
    ne_eq, not_true_eq_false, if_false]

theorem readEscape_pair {high low : List Char} {m n : Nat} (h : IsQuad high m) (least : 0xD800 ≤ m)
    (most : m ≤ 0xDBFF) (hl : IsQuad low n) (least' : 0xDC00 ≤ n) (most' : n ≤ 0xDFFF)
    (rest : List Char) (mark : Mark) :
    ∃ mark', readEscape ⟨'u' :: high ++ '\\' :: 'u' :: low ++ rest, mark⟩ =
      .ok (.ofNat ((m - 0xD800) * 0x400 + (n - 0xDC00) + 0x10000), ⟨rest, mark'⟩) := by
  obtain ⟨next, found⟩ :=
    hexQuad_of_isQuad h ('\\' :: 'u' :: (low ++ rest)) (mark.after 'u')
  obtain ⟨mark', found'⟩ := hexQuad_of_isQuad hl rest ((next.after '\\').after 'u')
  have none : shortEscape? 'u' = none := rfl
  have notLow : ¬ (0xDC00 ≤ m ∧ m ≤ 0xDFFF) := by omega
  have inside : ¬ (n < 0xDC00 ∨ 0xDFFF < n) := by omega
  refine ⟨mark', ?_⟩
  simp only [readEscape, lowSurrogate, List.cons_append, List.append_assoc, none, Input.next, found,
    found', if_neg notLow, if_pos (And.intro least most), if_neg inside, ne_eq, not_true_eq_false,
    if_false]

/-- What stands between the quotes is read. -/
theorem readString_spells {raw ds : List Char} (h : Spells raw ds) (rest : List Char) (m : Mark) :
    ∃ m', readString ⟨raw ++ '"' :: rest, m⟩ = .ok (ds, ⟨rest, m'⟩) := by
  induction h generalizing m with
  | nil =>
    refine ⟨m.after '"', ?_⟩
    rw [List.nil_append, readString]
    simp only [if_true, Input.next]
  | @plain c cs ds quote escape control _ ih =>
    obtain ⟨m', read⟩ := ih (m.after c)
    refine ⟨m', ?_⟩
    rw [List.cons_append, readString]
    simp only [if_neg quote, if_neg escape, if_neg (Nat.not_lt.mpr control), Input.next, read,
      Except.map]
  | @short c d cs ds short _ ih =>
    obtain ⟨m', read⟩ := ih ((m.after '\\').after c)
    have escape : readEscape ⟨c :: (cs ++ '"' :: rest), m.after '\\'⟩ =
        .ok (d, ⟨cs ++ '"' :: rest, (m.after '\\').after c⟩) := by
      simp only [readEscape, shortEscape?_eq_some_iff.mpr short, Input.next]
    refine ⟨m', ?_⟩
    rw [List.cons_append, List.cons_append, readString_escape escape, read]
    rfl
  | @code quad n cs ds value plain _ ih =>
    obtain ⟨next, escape⟩ := readEscape_code value plain (cs ++ '"' :: rest) (m.after '\\')
    obtain ⟨m', read⟩ := ih next
    refine ⟨m', ?_⟩
    rw [List.cons_append] at escape
    rw [List.cons_append, List.cons_append, List.cons_append, List.cons_append, List.append_assoc,
      readString_escape escape, read]
    rfl
  | @pair high low k n cs ds value least most lowValue least' most' _ ih =>
    obtain ⟨next, escape⟩ := readEscape_pair value least most lowValue least' most'
      (cs ++ '"' :: rest) (m.after '\\')
    obtain ⟨m', read⟩ := ih next
    refine ⟨m', ?_⟩
    have whole : '\\' :: 'u' :: high ++ '\\' :: 'u' :: low ++ cs ++ '"' :: rest =
        '\\' :: ('u' :: high ++ '\\' :: 'u' :: low ++ (cs ++ '"' :: rest)) := by simp
    rw [whole, readString_escape escape, read]
    rfl

theorem Spells.unique {raw ds ds' : List Char} (h : Spells raw ds) (h' : Spells raw ds') :
    ds = ds' := by
  obtain ⟨m, read⟩ := readString_spells h [] .start
  obtain ⟨m', read'⟩ := readString_spells h' [] .start
  rw [read] at read'
  cases read'
  rfl

theorem Names.unique {raw : List Char} {s s' : String} (h : Names raw s) (h' : Names raw s') :
    s = s' := String.toList_inj.mp (Spells.unique h h')

theorem Spells.stringText {raw ds : List Char} (h : Spells raw ds) : StringText raw := by
  induction h with
  | nil => exact .nil
  | plain quote escape control _ ih => exact .plain quote escape control ih
  | short short _ ih => exact .short short ih
  | code value _ _ ih => exact .code value ih
  | pair value _ _ lowValue _ _ _ ih =>
    rw [List.append_assoc]
    exact .code value (.code lowValue ih)

end SchemaPlan.Json
