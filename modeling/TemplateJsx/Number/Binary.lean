/-!
# Binary numbers of double precision

A number of double precision is a significand of at most 53 bits times a power
of two, whose exponent is at least -1074.  A decimal number is rounded to the
nearest of them, and of two equally near to the one whose significand is even.
-/

namespace TemplateJsx

/-- The magnitude `significand * 2 ^ exponent` of a binary number of double
precision. -/
structure Binary where
  significand : Nat
  exponent : Int
  deriving DecidableEq, Repr

/-- The nearest natural number to a quotient, the even one of two equally
near. -/
def roundQuotient (num den : Nat) : Nat :=
  let q := num / den
  let twice := 2 * (num % den)
  if den < twice || (twice == den && q % 2 == 1) then q + 1 else q

/-- Both sides of a fraction scaled by a power of a base. -/
def scaleFraction (base : Nat) (exponent : Int) (num den : Nat) : Nat × Nat :=
  if 0 ≤ exponent then (num * Nat.pow base exponent.toNat, den)
  else (num, den * Nat.pow base (-exponent).toNat)

namespace Binary

/-- Significands are below this bound, of 53 bits. -/
def significandBound : Nat := 9007199254740992

def leastExponent : Int := -1074

def greatestExponent : Int := 971

/-- The number nearest to a fraction, if it is not too large. -/
def ofFraction? (num den : Nat) : Option Binary :=
  if num = 0 then some ⟨0, leastExponent⟩
  else
    let low : Int := num.log2 - den.log2 - 53
    let (n, d) := scaleFraction 2 (-low) num den
    let exponent :=
      max leastExponent (if d * significandBound ≤ n then low + 1 else low)
    let (n, d) := scaleFraction 2 (-exponent) num den
    let m := roundQuotient n d
    let (m, exponent) :=
      if m = significandBound then (significandBound / 2, exponent + 1)
      else (m, exponent)
    if greatestExponent < exponent then none else some ⟨m, exponent⟩

/-- The number nearest to `digits * 10 ^ exponent`, if it is not too large.
Exponents far outside the range are decided by the count of digits alone. -/
def ofDecimal? (digits : Nat) (exponent : Int) : Option Binary :=
  let size : Int := (Nat.toDigits 10 digits).length + exponent
  if digits = 0 || size < -400 then some ⟨0, leastExponent⟩
  else if 400 < size then none
  else
    let (num, den) := scaleFraction 10 exponent digits 1
    ofFraction? num den

end Binary

end TemplateJsx
