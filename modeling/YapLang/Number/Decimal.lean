import YapLang.Number.Double

/-!
# Decimals and doubles

A decimal is read as the nearest double, and a double is written as a decimal with the fewest digits
that is read back as that double. The search for it goes from coarse grids of powers of ten to finer
ones and tests each candidate by reading it, so what it finds reads back by construction.
-/
namespace YapLang

/-- The number `coefficient * 10 ^ exponent`. -/
structure Decimal where
  coefficient : Nat
  exponent : Int
  deriving DecidableEq, Repr

namespace Decimal

/-- The bits of the magnitude nearest to a decimal. Exponents so large or so small that the answer
is infinity or zero whatever the coefficient are settled first, to keep the powers of ten within
reach: `10 ^ 400` is out of range, and `c / 10 ^ k` is below `2 ^ (log2 c + 1 - 3 * k)`. -/
def roundedBits (d : Decimal) : Nat :=
  if d.coefficient = 0 then 0
  else if 0 ≤ d.exponent then
    if 400 < d.exponent then Double.infinityBits
    else Double.roundedBits (d.coefficient * Nat.pow 10 d.exponent.toNat) 1
  else if d.coefficient.log2 + 1080 < 3 * (-d.exponent).toNat then 0
  else Double.roundedBits d.coefficient (Nat.pow 10 (-d.exponent).toNat)

/-- The double nearest to `±` a decimal. -/
def toDouble (d : Decimal) (negative : Bool) : Float :=
  Double.ofMagnitudeBits negative d.roundedBits

/-- The decimal that is equal to `significand * 2 ^ exponent`. -/
def ofDyadic (significand : Nat) (exponent : Int) : Decimal :=
  if 0 ≤ exponent then ⟨significand * Nat.pow 2 exponent.toNat, 0⟩
  else ⟨significand * Nat.pow 5 (-exponent).toNat, exponent⟩

/-- The whole part of the decimal in units of `10 ^ grid`, and whether the rest is below, at or
above one half of such a unit. -/
def onGrid (d : Decimal) (grid : Int) : Nat × Ordering :=
  if grid ≤ d.exponent then (d.coefficient * Nat.pow 10 (d.exponent - grid).toNat, .lt)
  else
    let unit := Nat.pow 10 (grid - d.exponent).toNat
    (d.coefficient / unit, compare (2 * (d.coefficient % unit)) unit)

/-- The neighbours of a decimal on a grid, the nearer one first; of two equally near ones, the even
one. -/
def neighbours (d : Decimal) (grid : Int) : List Decimal :=
  match d.onGrid grid with
  | (below, .lt) => [⟨below, grid⟩, ⟨below + 1, grid⟩]
  | (below, .gt) => [⟨below + 1, grid⟩, ⟨below, grid⟩]
  | (below, .eq) =>
    if below % 2 = 0 then [⟨below, grid⟩, ⟨below + 1, grid⟩] else [⟨below + 1, grid⟩, ⟨below, grid⟩]

/-- Goes through the grids from `10 ^ grid` downward and stops at the first one where a neighbour of
`d` has the wanted bits. -/
def shortestFrom (d : Decimal) (bits : Nat) : Nat → Int → Decimal
  | 0, _ => d
  | fuel + 1, grid =>
    match (d.neighbours grid).find? fun candidate => candidate.roundedBits == bits with
    | some found => found
    | none => shortestFrom d bits fuel (grid - 1)

/-- The exponent of a power of ten above `significand * 2 ^ exponent`. The logarithm of two is below
`0.30103`, and rounding it up costs less than one step for the exponents of doubles. -/
def orderAbove (significand : Nat) (exponent : Int) : Int :=
  Int.fdiv ((significand.log2 + 1 + exponent) * 30103) 100000 + 1

/-- The decimal with the fewest digits that is read as the magnitude of a finite double; of several,
the nearest one. Seventeen digits always suffice, and the search starts at most three grids too
early. -/
def shortest (d : Dyadic) : Decimal :=
  if d.significand = 0 then ⟨0, 0⟩
  else
    shortestFrom (ofDyadic d.significand d.exponent)
      (Double.magnitudeBits (Double.ofDyadic d)) 20 (orderAbove d.significand d.exponent)

/-- Moves a factor ten from the coefficient to the exponent, as long as there is one. -/
def stripZeros : Nat → Decimal → Decimal
  | 0, d => d
  | fuel + 1, d =>
    if d.coefficient ≠ 0 ∧ d.coefficient % 10 = 0 then
      stripZeros fuel ⟨d.coefficient / 10, d.exponent + 1⟩
    else d

/-- The same number with the smallest coefficient. A coefficient has fewer decimal zeros than binary
digits. -/
def normalize (d : Decimal) : Decimal :=
  stripZeros (d.coefficient.log2 + 1) d

end Decimal

end YapLang
