import SchemaPlan.Number.Binary64

/-!
# Shortest decimals

The text of a floating-point number has the fewest digits that read back as the number, and of
those the nearest.
-/

namespace SchemaPlan

/-- `digits * 10 ^ exponent`. -/
structure Decimal where
  digits : Nat
  exponent : Int
deriving DecidableEq, Repr

namespace Decimal

/-- Compares `a * 10 ^ i` with `n * 2 ^ j`. -/
def compareScaled (a : Nat) (i : Int) (n : Nat) (j : Int) : Ordering :=
  compare (a * tenPow i.toNat * twoPow (-j).toNat) (n * twoPow j.toNat * tenPow (-i).toNat)

/-- The decimal lies among the reals that round to the number. They reach halfway to the number's
neighbours, ends included if the mantissa is even. Below a power of two the lower neighbour is
at half the distance. -/
def roundsTo (d : Decimal) (x : Binary64) : Bool :=
  let narrow := x.mantissa == twoPow 52 && x.exponent > Binary64.minExponent
  let low := if narrow then 4 * x.mantissa - 1 else 4 * x.mantissa - 2
  let below := compareScaled d.digits d.exponent low (x.exponent - 2)
  let above := compareScaled d.digits d.exponent (4 * x.mantissa + 2) (x.exponent - 2)
  let even := x.mantissa % 2 == 0
  (below == .gt || (even && below == .eq)) && (above == .lt || (even && above == .eq))

/-- The decimal exponent of the leading digit. -/
def leadingExponent (x : Binary64) : Int :=
  let num := x.mantissa * twoPow x.exponent.toNat
  let den := twoPow (-x.exponent).toNat
  if den ≤ num then (Nat.toDigits 10 (num / den)).length - 1
  else
    let places := (Nat.toDigits 10 (den / num)).length
    if num * tenPow (places - 1) = den then 1 - places else -places

/-- The nearer of the number's two neighbours on the grid of a power of ten that reads back. -/
def onGrid? (x : Binary64) (k : Int) : Option Decimal :=
  let num := x.mantissa * twoPow x.exponent.toNat * tenPow (-k).toNat
  let den := twoPow (-x.exponent).toNat * tenPow k.toNat
  let lower : Decimal := ⟨num / den, k⟩
  let upper : Decimal := ⟨num / den + 1, k⟩
  let twice := 2 * (num % den)
  let upperFirst := twice > den || (twice == den && lower.digits % 2 == 1)
  if upperFirst then [upper, lower].find? (·.roundsTo x) else [lower, upper].find? (·.roundsTo x)

/-- The exact value, should no grid up to seventeen digits hold a decimal that reads back. -/
def exact (x : Binary64) : Decimal :=
  ⟨x.mantissa * twoPow x.exponent.toNat * Nat.pow 5 (-x.exponent).toNat, -(-x.exponent).toNat⟩

def shortest (x : Binary64) : Decimal :=
  let leading := leadingExponent x
  ((List.range 17).findSome? fun (n : Nat) => onGrid? x (leading - n)).getD (exact x)

/-- Drops trailing zeros of the digits. -/
def significant (digits : List Char) : List Char :=
  (digits.reverse.dropWhile (· == '0')).reverse

/-- Positional from `0.00001` up to sixteen digits before the point, with a point in any case.
Other numbers have an exponent with its sign. -/
def text (d : Decimal) : String :=
  let all := Nat.toDigits 10 d.digits
  let digits := significant all
  let leading : Int := d.exponent + all.length - 1
  let zeros (n : Int) : List Char := List.replicate n.toNat '0'
  if d.digits = 0 then "0.0"
  else if -5 ≤ leading ∧ leading ≤ 15 then
    if leading < 0 then .ofList ("0.".toList ++ zeros (-leading - 1) ++ digits)
    else
      let whole := leading.toNat + 1
      let fraction := digits.drop whole
      .ofList (digits.take whole ++ zeros (whole - digits.length) ++
        '.' :: (if fraction.isEmpty then ['0'] else fraction))
  else
    let fraction := digits.drop 1
    let sign := if leading < 0 then '-' else '+'
    .ofList (digits.take 1 ++ (if fraction.isEmpty then [] else '.' :: fraction) ++
      'e' :: sign :: Nat.toDigits 10 leading.natAbs)

end Decimal

def Binary64.text (x : Binary64) : String :=
  if x.isZero then "0.0" else (Decimal.shortest x).text

example : (Binary64.ofNat (2 ^ 64)).text = "1.8446744073709552e+19" := by decide +kernel

example : (Binary64.ofQuotient 1 10).text = "0.1" := by decide +kernel

end SchemaPlan
