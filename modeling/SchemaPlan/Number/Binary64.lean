/-!
# Binary floating-point numbers

Nonnegative numbers `m * 2 ^ e` with 53 bits of precision, and correctly rounded products and
quotients of them. A number whose exponent is past the format's stands for infinity.
-/

namespace SchemaPlan

def twoPow (k : Nat) : Nat := Nat.pow 2 k

def tenPow (k : Nat) : Nat := Nat.pow 10 k

structure Binary64 where
  mantissa : Nat
  exponent : Int
deriving DecidableEq, Repr

namespace Binary64

/-- The quotient of two numbers, the nearer integer, of two equally near the even one. -/
def divNearest (num den : Nat) : Nat :=
  let q := num / den
  let twice := 2 * (num % den)
  if twice > den ∨ (twice = den ∧ q % 2 = 1) then q + 1 else q

def divNearestScaled (num den : Nat) (e : Int) : Nat :=
  divNearest (num * twoPow (-e).toNat) (den * twoPow e.toNat)

/-- The least exponent. Numbers that have it may have less than 53 bits. -/
def minExponent : Int := -1074

def maxExponent : Int := 971

/-- The exponent at which a quotient has 53 bits, or the least exponent. -/
def quotientExponent (num den : Nat) : Int :=
  let guess : Int := (num.log2 : Int) - den.log2 - 52
  let exact :=
    if num * twoPow (-guess).toNat < twoPow 52 * (den * twoPow guess.toNat) then guess - 1 else guess
  max exact minExponent

/-- Rounds the quotient of two numbers. -/
def ofQuotient (num den : Nat) : Binary64 :=
  if num = 0 ∨ den = 0 then ⟨0, minExponent⟩
  else
    let e := quotientExponent num den
    let m := divNearestScaled num den e
    if m = twoPow 53 then ⟨twoPow 52, e + 1⟩ else ⟨m, e⟩

def ofNat (n : Nat) : Binary64 := ofQuotient n 1

def isZero (x : Binary64) : Bool := x.mantissa == 0

def isInfinite (x : Binary64) : Bool := x.exponent > maxExponent

def mul (x y : Binary64) : Binary64 :=
  let e := x.exponent + y.exponent
  ofQuotient (x.mantissa * y.mantissa * twoPow e.toNat) (twoPow (-e).toNat)

def div (x y : Binary64) : Binary64 :=
  let e := x.exponent - y.exponent
  ofQuotient (x.mantissa * twoPow e.toNat) (y.mantissa * twoPow (-e).toNat)

def powerOfTen (k : Nat) : Binary64 := ofNat (tenPow k)

/-- The number times a power of ten, computed in steps that each round: the power itself, and the
product or quotient. `none` if the result is too large. -/
def scaleByTen (x : Binary64) (k : Int) : Option Binary64 :=
  if k.natAbs ≤ 308 then
    if 0 ≤ k then
      let y := x.mul (powerOfTen k.natAbs)
      if y.isInfinite then none else some y
    else some (x.div (powerOfTen k.natAbs))
  else if x.isZero then some x
  else if 0 ≤ k then none
  else (x.div (powerOfTen 308)).scaleByTen (k + 308)
termination_by k.natAbs

example : ofNat (2 ^ 53 + 1) = ⟨2 ^ 52, 1⟩ := by decide +kernel

example : ofNat (2 ^ 53 + 3) = ⟨2 ^ 52 + 2, 1⟩ := by decide +kernel

end Binary64

end SchemaPlan
