import SchemaPlan.Json.Number
import SchemaPlan.Proofs.Json.Content
import SchemaPlan.Proofs.Result
import SchemaPlan.Proofs.Runs

/-!
# How numbers are scanned

What is scanned as a number is the text of one, and a number that does not go on is scanned to its
end.
-/

namespace SchemaPlan.Json

/-- The text does not start with a digit. -/
def NoDigit (cs : List Char) : Prop := ∀ c ∈ cs.head?, c.isDigit = false

namespace NumberScan

/-- Digits that are taken from a text, if there are any. -/
theorem isDigits_takeWhile {cs : List Char} (h : ¬ (cs.takeWhile Char.isDigit).isEmpty) :
    IsDigits (cs.takeWhile Char.isDigit) := by
  refine ⟨fun none => h (by rw [none]; exact List.isEmpty_nil), ?_⟩
  intro c hc
  exact List.mem_takeWhile_imp hc

theorem noDigit_dropWhile (cs : List Char) : NoDigit (cs.dropWhile Char.isDigit) :=
  head?_dropWhile cs

theorem wholeText_of_wholePart {m m' : Mark} {cs digits rest : List Char}
    (h : wholePart m cs = .ok (digits, m', rest)) :
    cs = digits ++ rest ∧ WholeText digits ∧ NoDigit rest := by
  have split := List.takeWhile_append_dropWhile (p := Char.isDigit) (l := cs)
  have inside : ∀ c ∈ cs.takeWhile Char.isDigit, c.isDigit := fun c hc => List.mem_takeWhile_imp hc
  unfold wholePart at h
  simp only at h
  split at h
  · cases h
  · cases h
  · next solid single =>
    cases h
    refine ⟨split.symm, ?_, noDigit_dropWhile cs⟩
    cases run : cs.takeWhile Char.isDigit with
    | nil => exact absurd run solid
    | cons c digits =>
      rw [run] at inside
      by_cases zero : c = '0'
      · subst zero
        cases digits with
        | nil => exact .inl rfl
        | cons d digits => exact absurd run (single d digits)
      · exact .inr ⟨⟨by simp, inside⟩, by simpa using zero⟩

theorem fractionText_of_fractionPart {m m' : Mark} {cs rest : List Char}
    {fraction : Option (List Char)} (stop : NoDigit cs)
    (h : fractionPart m cs = .ok (fraction, m', rest)) :
    ∃ text, cs = text ++ rest ∧ FractionText text ∧ NoDigit rest := by
  unfold fractionPart at h
  split at h
  · next cs =>
    simp only at h
    split at h
    · cases h
    · next solid =>
      cases h
      refine ⟨'.' :: cs.takeWhile Char.isDigit, ?_, ?_, noDigit_dropWhile cs⟩
      · rw [List.cons_append, List.takeWhile_append_dropWhile]
      · exact .inr ⟨_, rfl, isDigits_takeWhile solid⟩
  · cases h
    exact ⟨[], rfl, .inl rfl, stop⟩

theorem exponentSign_take (cs : List Char) :
    cs.take (exponentSign cs).2 = [] ∨ cs.take (exponentSign cs).2 = ['+'] ∨
      cs.take (exponentSign cs).2 = ['-'] := by
  unfold exponentSign
  split
  · exact .inr (.inl rfl)
  · exact .inr (.inr rfl)
  · exact .inl rfl

theorem exponentText_of_exponentPart {m m' : Mark} {cs rest : List Char}
    {exponent : Option (Bool × List Char)} (stop : NoDigit cs)
    (h : exponentPart m cs = .ok (exponent, m', rest)) :
    ∃ text, cs = text ++ rest ∧ ExponentText text ∧ NoDigit rest := by
  unfold exponentPart at h
  split at h
  · next c cs =>
    split at h
    · next letter =>
      simp only at h
      split at h
      · cases h
      · next solid =>
        cases h
        let sign := cs.take (exponentSign cs).2
        let more := cs.drop (exponentSign cs).2
        refine ⟨c :: sign ++ more.takeWhile Char.isDigit, ?_, ?_, noDigit_dropWhile _⟩
        · rw [List.append_assoc, List.takeWhile_append_dropWhile, List.cons_append,
            List.take_append_drop]
        · exact .inr ⟨c, sign, _, rfl, letter, exponentSign_take cs, isDigits_takeWhile solid⟩
    · cases h
      exact ⟨[], rfl, .inl rfl, stop⟩
  · cases h
    exact ⟨[], rfl, .inl rfl, stop⟩

/-- A number after its sign. -/
def unsigned (isNegative : Bool) (m : Mark) (cs : List Char) :
    Except (Error × Error) NumberScan := do
  let (whole, m, cs) ← wholePart m cs
  let (fraction, m, cs) ← fractionPart m cs
  let (exponent, m, cs) ← exponentPart m cs
  return ⟨Number.ofLiteral ⟨isNegative, whole, fraction, exponent⟩ m, m, cs⟩

theorem scan_minus (m : Mark) (cs : List Char) :
    scan m ('-' :: cs) = unsigned true (m.after '-') cs := rfl

theorem scan_unsigned {cs : List Char} (h : cs.head? ≠ some '-') (m : Mark) :
    scan m cs = unsigned false m cs := by
  unfold scan
  split
  next minus =>
  split at minus
  · exact absurd rfl h
  · cases minus
    rfl

theorem numberText_of_unsigned {isNegative : Bool} {m : Mark} {cs : List Char} {s : NumberScan}
    (h : unsigned isNegative m cs = .ok s) :
    ∃ whole fraction exponent, cs = whole ++ fraction ++ exponent ++ s.rest ∧ WholeText whole ∧
      FractionText fraction ∧ ExponentText exponent ∧ NoDigit s.rest := by
  obtain ⟨⟨whole, m', cs'⟩, first, h⟩ := bind_eq_ok_iff.mp h
  obtain ⟨⟨_, m'', cs''⟩, second, h⟩ := bind_eq_ok_iff.mp h
  obtain ⟨⟨_, stop, rest⟩, third, h⟩ := bind_eq_ok_iff.mp h
  cases h
  obtain ⟨rfl, wholeText, noDigit⟩ := wholeText_of_wholePart first
  obtain ⟨fraction, rfl, fractionText, noDigit⟩ := fractionText_of_fractionPart noDigit second
  obtain ⟨exponent, rfl, exponentText, noDigit⟩ := exponentText_of_exponentPart noDigit third
  refine ⟨whole, fraction, exponent, ?_, wholeText, fractionText, exponentText, noDigit⟩
  simp only [List.append_assoc]

/-- What is scanned is the text of a number. -/
theorem numberText_of_scan {m : Mark} {cs : List Char} {s : NumberScan} (h : scan m cs = .ok s) :
    ∃ digits, cs = digits ++ s.rest ∧ NumberText digits ∧ NoDigit s.rest := by
  by_cases minus : cs.head? = some '-'
  · obtain ⟨cs, rfl⟩ := List.head?_eq_some_iff.mp minus
    rw [scan_minus] at h
    obtain ⟨whole, fraction, exponent, rfl, wholeText, fractionText, exponentText, noDigit⟩ :=
      numberText_of_unsigned h
    exact ⟨_, rfl, .intro (.inr rfl) wholeText fractionText exponentText, noDigit⟩
  · rw [scan_unsigned minus] at h
    obtain ⟨whole, fraction, exponent, rfl, wholeText, fractionText, exponentText, noDigit⟩ :=
      numberText_of_unsigned h
    exact ⟨_, rfl, .intro (.inl rfl) wholeText fractionText exponentText, noDigit⟩

theorem wholePart_wholeText {digits rest : List Char} (h : WholeText digits) (stop : NoDigit rest)
    (m : Mark) : wholePart m (digits ++ rest) = .ok (digits, m.afterAll digits, rest) := by
  have inside : ∀ c ∈ digits, c.isDigit := by
    rcases h with rfl | ⟨⟨-, inside⟩, -⟩
    · simp
    · exact inside
  have taken := takeWhile_append_stop inside stop
  have left := dropWhile_append_stop inside stop
  unfold wholePart
  simp only [taken, left]
  rcases h with rfl | ⟨⟨solid, -⟩, zero⟩
  · rfl
  · split
    · exact absurd rfl solid
    · exact absurd rfl zero
    · rfl

theorem isEmpty_of_isDigits {digits : List Char} (h : IsDigits digits) : ¬ digits.isEmpty :=
  fun none => h.1 (List.isEmpty_iff.mp none)

theorem fractionPart_fractionText {text rest : List Char} (h : FractionText text)
    (stop : NoDigit rest) (point : rest.head? ≠ some '.') (m : Mark) :
    ∃ fraction m', fractionPart m (text ++ rest) = .ok (fraction, m', rest) := by
  rcases h with rfl | ⟨digits, rfl, isDigits⟩
  · refine ⟨none, m, ?_⟩
    unfold fractionPart
    split
    · next same => exact absurd (by rw [← List.nil_append rest, same]; rfl) point
    · rfl
  · have taken := takeWhile_append_stop isDigits.2 stop
    have left := dropWhile_append_stop isDigits.2 stop
    refine ⟨some digits, (m.after '.').afterAll digits, ?_⟩
    simp only [fractionPart, List.cons_append, taken, left, if_neg (isEmpty_of_isDigits isDigits)]

theorem exponentSign_append {sign digits : List Char}
    (h : sign = [] ∨ sign = ['+'] ∨ sign = ['-']) (isDigits : IsDigits digits) :
    ∃ isNegative, ∀ rest, exponentSign (sign ++ digits ++ rest) = (isNegative, sign.length) := by
  rcases h with rfl | rfl | rfl
  · refine ⟨false, fun rest => ?_⟩
    obtain ⟨solid, inside⟩ := isDigits
    obtain ⟨d, digits, rfl⟩ := List.exists_cons_of_ne_nil solid
    have digit := inside d List.mem_cons_self
    unfold exponentSign
    split
    · next plus =>
      cases plus
      cases digit
    · next minus =>
      cases minus
      cases digit
    · rfl
  · exact ⟨false, fun _ => rfl⟩
  · exact ⟨true, fun _ => rfl⟩

theorem exponentPart_exponentText {text rest : List Char} (h : ExponentText text)
    (stop : NoDigit rest) (letter : ∀ c ∈ rest.head?, ¬ (c = 'e' ∨ c = 'E')) (m : Mark) :
    ∃ exponent m', exponentPart m (text ++ rest) = .ok (exponent, m', rest) := by
  rcases h with rfl | ⟨c, sign, digits, rfl, isLetter, isSign, isDigits⟩
  · refine ⟨none, m, ?_⟩
    rw [List.nil_append]
    cases rest with
    | nil => rfl
    | cons c rest => simp only [exponentPart, if_neg (letter c rfl)]
  · obtain ⟨isNegative, signed⟩ := exponentSign_append isSign isDigits
    have taken := takeWhile_append_stop isDigits.2 stop
    have left := dropWhile_append_stop isDigits.2 stop
    have unsigned : (sign ++ digits ++ rest).drop sign.length = digits ++ rest := by
      rw [List.append_assoc, List.drop_left]
    refine ⟨some (isNegative, digits),
      (m.afterAll (c :: (sign ++ digits ++ rest).take sign.length)).afterAll digits, ?_⟩
    simp only [exponentPart, List.cons_append, if_pos isLetter, signed, unsigned, taken, left,
      if_neg (isEmpty_of_isDigits isDigits)]

theorem head_of_fractionText {text rest : List Char} (h : FractionText text) :
    ∀ c ∈ (text ++ rest).head?, c = '.' ∨ c ∈ rest.head? := by
  intro c hc
  rcases h with rfl | ⟨digits, rfl, -⟩
  · exact .inr hc
  · exact .inl (Option.some.inj hc).symm

theorem head_of_exponentText {text rest : List Char} (h : ExponentText text) :
    ∀ c ∈ (text ++ rest).head?, (c = 'e' ∨ c = 'E') ∨ c ∈ rest.head? := by
  intro c hc
  rcases h with rfl | ⟨d, sign, digits, rfl, letter, -⟩
  · exact .inr hc
  · obtain rfl : d = c := Option.some.inj hc
    exact .inl letter

theorem head_of_wholeText {text : List Char} (h : WholeText text) :
    ∃ c more, text = c :: more ∧ c.isDigit := by
  rcases h with rfl | ⟨⟨solid, inside⟩, -⟩
  · exact ⟨'0', [], rfl, rfl⟩
  · obtain ⟨c, more, rfl⟩ := List.exists_cons_of_ne_nil solid
    exact ⟨c, more, rfl, inside c List.mem_cons_self⟩

theorem unsigned_numberText {whole fraction exponent rest : List Char} (wholeText : WholeText whole)
    (fractionText : FractionText fraction) (exponentText : ExponentText exponent)
    (ends : ∀ c ∈ rest.head?, ¬ c.isDigit ∧ c ≠ '.' ∧ c ≠ 'e' ∧ c ≠ 'E') (isNegative : Bool)
    (m : Mark) :
    ∃ s, unsigned isNegative m (whole ++ (fraction ++ (exponent ++ rest))) = .ok s ∧
      s.rest = rest := by
  have noDigit : NoDigit rest := fun c hc => Bool.eq_false_iff.mpr (ends c hc).1
  have noDigitExponent : NoDigit (exponent ++ rest) := by
    intro c hc
    rcases head_of_exponentText exponentText c hc with (rfl | rfl) | hc
    · rfl
    · rfl
    · exact noDigit c hc
  have noDigitFraction : NoDigit (fraction ++ (exponent ++ rest)) := by
    intro c hc
    rcases head_of_fractionText fractionText c hc with rfl | hc
    · rfl
    · exact noDigitExponent c hc
  have noPoint : (exponent ++ rest).head? ≠ some '.' := by
    intro point
    rcases head_of_exponentText exponentText '.' point with (e | e) | hc
    · cases e
    · cases e
    · exact (ends '.' hc).2.1 rfl
  have noLetter : ∀ c ∈ rest.head?, ¬ (c = 'e' ∨ c = 'E') :=
    fun c hc => not_or.mpr (ends c hc).2.2
  have first := wholePart_wholeText wholeText noDigitFraction m
  obtain ⟨f, m', second⟩ :=
    fractionPart_fractionText fractionText noDigitExponent noPoint (m.afterAll whole)
  obtain ⟨e, stop, third⟩ := exponentPart_exponentText exponentText noDigit noLetter m'
  refine ⟨⟨Number.ofLiteral ⟨isNegative, whole, f, e⟩ stop, stop, rest⟩, ?_, rfl⟩
  rw [unsigned, first, ok_bind]
  simp only [second, third, ok_bind]
  rfl

/-- A number that does not go on is scanned to its end. -/
theorem scan_numberText {digits rest : List Char} (h : NumberText digits)
    (ends : (Lexeme.atom (.number digits)).Ends rest) (m : Mark) :
    ∃ s, scan m (digits ++ rest) = .ok s ∧ s.rest = rest := by
  obtain ⟨sign, wholeText, fractionText, exponentText⟩ := h
  simp only [List.append_assoc]
  rcases sign with rfl | rfl
  · obtain ⟨c, more, rfl, digit⟩ := head_of_wholeText wholeText
    rw [List.nil_append, scan_unsigned]
    · exact unsigned_numberText wholeText fractionText exponentText ends false m
    · intro minus
      obtain rfl : c = '-' := Option.some.inj minus
      cases digit
  · rw [List.singleton_append, scan_minus]
    exact unsigned_numberText wholeText fractionText exponentText ends true (m.after '-')

end NumberScan

/-- The text of a number starts with a minus sign or a digit. -/
theorem NumberText.head {digits : List Char} (h : NumberText digits) :
    ∃ c more, digits = c :: more ∧ (c = '-' ∨ c.isDigit) := by
  obtain ⟨sign, wholeText, -, -⟩ := h
  rcases sign with rfl | rfl
  · obtain ⟨c, more, rfl, digit⟩ := NumberScan.head_of_wholeText wholeText
    exact ⟨c, _, rfl, .inr digit⟩
  · exact ⟨'-', _, rfl, .inl rfl⟩

end SchemaPlan.Json
