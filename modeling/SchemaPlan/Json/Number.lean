import SchemaPlan.Json.Error
import SchemaPlan.Number.Shortest

/-!
# Numbers in JSON text

Integers of 64 bits are kept as such. Other numbers become floating-point, from the digits that
64 bits hold and a power of ten.
-/

namespace SchemaPlan.Json

inductive Number where
  | natural (n : Nat)
  | negative (n : Nat)
  | float (negative : Bool) (magnitude : Binary64)
deriving DecidableEq, Repr

namespace Number

def description : Number → String
  | .natural n => s!"integer \x60{n}\x60"
  | .negative n => s!"integer \x60-{n}\x60"
  | .float isNegative x =>
    let sign := if isNegative then "-" else ""
    s!"floating point \x60{sign}{x.text}\x60"

def digitValue (c : Char) : Nat := c.toNat - '0'.toNat

def limit : Nat := twoPow 64 - 1

/-- Appends digits to a number while it stays below `2 ^ 64`, and counts the digits left. -/
def accumulate (n : Nat) : List Char → Nat × Nat
  | [] => (n, 0)
  | c :: cs =>
    if n * 10 + digitValue c ≤ limit then accumulate (n * 10 + digitValue c) cs
    else (n, (c :: cs).length)

/-- The digits of an exponent up to the first that takes it past `2 ^ 31 - 1`. -/
def exponentDigits (n : Nat) : List Char → Except Nat Nat
  | [] => .ok n
  | c :: cs =>
    if n * 10 + digitValue c ≤ twoPow 31 - 1 then exponentDigits (n * 10 + digitValue c) cs
    else .error cs.length

/-- A number taken apart: sign, digits before and after the point, and the exponent's sign and
digits. -/
structure Literal where
  isNegative : Bool
  whole : List Char
  fraction : Option (List Char)
  exponent : Option (Bool × List Char)
deriving DecidableEq, Repr

/-- An integer with its sign. Zero is not negative, so `-0` is no integer. -/
def ofInteger (isNegative : Bool) (n : Nat) : Number :=
  if isNegative then
    if 0 < n ∧ n ≤ twoPow 63 then .negative n else .float true (.ofNat n)
  else .natural n

def scaled (isNegative : Bool) (n : Nat) (k : Int) : Option Number :=
  ((Binary64.ofNat n).scaleByTen k).map (.float isNegative)

/-- The number that a literal stands for, given the mark where it ends. -/
def ofLiteral (l : Literal) (stop : Mark) : Except Error Number :=
  let orOutOfRange (n : Option Number) : Except Error Number :=
    match n with
    | some n => .ok n
    | none => .error (.marked .numberOutOfRange stop)
  let (n, left) := accumulate 0 l.whole
  let fraction := l.fraction.getD []
  let (m, unused) := accumulate n fraction
  let k : Int := left - (fraction.length - unused : Nat)
  match l.exponent with
  | none =>
    if l.fraction.isNone ∧ left = 0 then .ok (ofInteger l.isNegative n)
    else orOutOfRange (scaled l.isNegative m k)
  | some (isNegative, digits) =>
    match exponentDigits 0 digits with
    | .ok e => orOutOfRange (scaled l.isNegative m (if isNegative then k - e else k + e))
    | .error rest =>
      if m = 0 ∨ isNegative then .ok (.float l.isNegative (.ofNat 0))
      else .error (.marked .numberOutOfRange ⟨stop.line, stop.column - rest⟩)

end Number

/-- A number at the start of a text: what it stands for, where it ends, and the text after it. If
there is none, two errors say why: one for when it is read, one for when it is skipped. -/
structure NumberScan where
  reading : Except Error Number
  stop : Mark
  rest : List Char

namespace NumberScan

/-- Where a digit is missing, reading tells the end of the text from a wrong character. -/
def missingDigit (m : Mark) : List Char → Error × Error
  | [] => (.marked .endInValue m, .marked .invalidNumber m)
  | c :: _ => (.marked .invalidNumber (m.peek c), .marked .invalidNumber (m.peek c))

/-- Whether an exponent is negative, and the length of its sign. -/
def exponentSign : List Char → Bool × Nat
  | '+' :: _ => (false, 1)
  | '-' :: _ => (true, 1)
  | _ => (false, 0)

def exponentPart (m : Mark) (cs : List Char) :
    Except (Error × Error) (Option (Bool × List Char) × Mark × List Char) :=
  match cs with
  | c :: cs' =>
    if c = 'e' ∨ c = 'E' then
      let sign := exponentSign cs'
      let m := m.afterAll (c :: cs'.take sign.2)
      let cs := cs'.drop sign.2
      let digits := cs.takeWhile Char.isDigit
      if digits.isEmpty then .error (missingDigit m cs)
      else .ok (some (sign.1, digits), m.afterAll digits, cs.dropWhile Char.isDigit)
    else .ok (none, m, cs)
  | [] => .ok (none, m, [])

def fractionPart (m : Mark) (cs : List Char) :
    Except (Error × Error) (Option (List Char) × Mark × List Char) :=
  match cs with
  | '.' :: cs =>
    let m := m.after '.'
    let digits := cs.takeWhile Char.isDigit
    if digits.isEmpty then .error (missingDigit m cs)
    else .ok (some digits, m.afterAll digits, cs.dropWhile Char.isDigit)
  | cs => .ok (none, m, cs)

/-- The digits before the point. A zero stands alone. -/
def wholePart (m : Mark) (cs : List Char) :
    Except (Error × Error) (List Char × Mark × List Char) :=
  let digits := cs.takeWhile Char.isDigit
  match digits with
  | [] => .error (missingDigit m cs)
  | '0' :: c :: _ =>
    let e := Error.marked .invalidNumber ((m.after '0').peek c)
    .error (e, e)
  | digits => .ok (digits, m.afterAll digits, cs.dropWhile Char.isDigit)

def scan (m : Mark) (cs : List Char) : Except (Error × Error) NumberScan := do
  let (isNegative, m, cs) := match cs with
    | '-' :: rest => (true, m.after '-', rest)
    | cs => (false, m, cs)
  let (whole, m, cs) ← wholePart m cs
  let (fraction, m, cs) ← fractionPart m cs
  let (exponent, m, cs) ← exponentPart m cs
  return ⟨Number.ofLiteral ⟨isNegative, whole, fraction, exponent⟩ m, m, cs⟩

theorem length_of_exponentPart {m m' : Mark} {cs rest : List Char} {e : Option (Bool × List Char)}
    (h : exponentPart m cs = .ok (e, m', rest)) : rest.length ≤ cs.length := by
  unfold exponentPart at h
  split at h
  · next c cs' =>
    split at h
    · simp only at h
      split at h
      · cases h
      · cases h
        refine Nat.le_trans (List.dropWhile_sublist _).length_le ?_
        simp only [List.length_drop, List.length_cons]
        omega
    · cases h
      exact Nat.le_refl _
  · cases h
    exact Nat.le_refl _

theorem length_of_fractionPart {m m' : Mark} {cs rest : List Char} {f : Option (List Char)}
    (h : fractionPart m cs = .ok (f, m', rest)) : rest.length ≤ cs.length := by
  unfold fractionPart at h
  split at h
  · simp only at h
    split at h
    · cases h
    · cases h
      exact Nat.le_succ_of_le (List.dropWhile_sublist _).length_le
  · cases h
    exact Nat.le_refl _

theorem length_of_wholePart {m m' : Mark} {cs rest digits : List Char}
    (h : wholePart m cs = .ok (digits, m', rest)) : rest.length < cs.length := by
  have whole := congrArg List.length
    (List.takeWhile_append_dropWhile (p := Char.isDigit) (l := cs))
  unfold wholePart at h
  simp only at h
  split at h
  · cases h
  · cases h
  · next hne _ =>
    cases h
    have : 0 < (cs.takeWhile Char.isDigit).length := List.length_pos_iff.mpr hne
    rw [List.length_append] at whole
    omega

theorem length_of_scan {m : Mark} {cs : List Char} {s : NumberScan} (h : scan m cs = .ok s) :
    s.rest.length < cs.length := by
  unfold scan at h
  simp only [bind, Except.bind] at h
  split at h
  · cases h
  · next w hw =>
    split at h
    · cases h
    · next f hf =>
      split at h
      · cases h
      · next e he =>
        cases h
        have := length_of_wholePart hw
        have := length_of_fractionPart hf
        have := length_of_exponentPart he
        refine Nat.lt_of_le_of_lt ‹_› (Nat.lt_of_le_of_lt ‹_› (Nat.lt_of_lt_of_le ‹_› ?_))
        split <;> simp

end NumberScan

end SchemaPlan.Json
