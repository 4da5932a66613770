import TemplateJsx.Number.Binary

/-!
# The shortest decimal of a binary number

A binary number is written with the fewest decimal digits that are read back as
the same number; of the decimals with that many digits, the one nearest to it is
taken, the greater of two equally near.
-/

namespace TemplateJsx

/-- The magnitude `digits * 10 ^ exponent`. -/
structure Decimal where
  digits : Nat
  exponent : Int
  deriving DecidableEq, Repr

namespace Binary

def readsBack (x : Binary) (d : Decimal) : Bool :=
  ofDecimal? d.digits d.exponent == some x

def fraction (x : Binary) : Nat × Nat :=
  scaleFraction 2 x.exponent x.significand 1

/-- Of the two neighbours of the number on a grid of decimals, the nearest that
is read back. -/
def onGrid? (x : Binary) (exponent : Int) : Option Decimal :=
  let (num, den) := x.fraction
  let (n, d) := scaleFraction 10 (-exponent) num den
  let below : Decimal := ⟨n / d, exponent⟩
  let above : Decimal := ⟨n / d + 1, exponent⟩
  let aboveNearer := d ≤ 2 * (n % d)
  if n % d = 0 then (if x.readsBack below then some below else none)
  else
    let (nearer, farther) :=
      if aboveNearer then (above, below) else (below, above)
    if x.readsBack nearer then some nearer
    else if x.readsBack farther then some farther
    else none

/-- How many decimal digits stand in front of the point; below one, how many
zeros follow it, negated. -/
def magnitude (x : Binary) : Int :=
  let (num, den) := x.fraction
  let whole := num / den
  if whole = 0 then
    -- the reciprocal has as many digits as there are zeros, up to a power of
    -- ten
    1 - ((Nat.toDigits 10 ((den - 1) / num)).length : Int)
  else (Nat.toDigits 10 whole).length

/-- The first grid, from coarse to fine, on which the number has a decimal. -/
def shortestFrom (x : Binary) : (grids : Nat) → Int → Option Decimal
  | 0, _ => none
  | grids + 1, exponent =>
    (x.onGrid? exponent).orElse fun _ => shortestFrom x grids (exponent - 1)

/-- The shortest decimal that is read back as the number, and of several such
the nearest.  The grids that are tried reach further than the digits of any such
number. -/
def shortest (x : Binary) : Decimal :=
  if x.significand = 0 then ⟨0, 0⟩
  else (x.shortestFrom 19 (x.magnitude)).getD ⟨0, 0⟩

end Binary

namespace Decimal

/-- The decimal in full, without an exponent and always with a point. -/
def positional (d : Decimal) : List Char :=
  let digits := Nat.toDigits 10 d.digits
  if 0 ≤ d.exponent then
    digits ++ List.replicate d.exponent.toNat '0' ++ ['.', '0']
  else
    let places := (-d.exponent).toNat
    if places < digits.length then
      digits.take (digits.length - places) ++
        '.' :: digits.drop (digits.length - places)
    else ['0', '.'] ++ List.replicate (places - digits.length) '0' ++ digits

end Decimal

end TemplateJsx
