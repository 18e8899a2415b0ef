/-!
# Doubles as exact numbers

A finite double is a whole number times a power of two. This module reads the two off the bits and
finds the double nearest to a quotient of whole numbers, a tie going to the even neighbour. Every
conversion into doubles of this library, from integers and decimals, is that one rounding step, so
all of them are exact up to it.
-/
namespace YapLang

/-- The number `± significand * 2 ^ exponent`. -/
structure Dyadic where
  negative : Bool
  significand : Nat
  exponent : Int
  deriving DecidableEq, Repr

namespace Double

/-- Of the bits below the sign: those of infinity. Smaller ones belong to finite magnitudes, in
the order of the magnitudes. -/
def infinityBits : Nat := 2047 * Nat.pow 2 52

/-- The bit of the sign. -/
def signBit : Nat := Nat.pow 2 63

def isNegative (x : Float) : Bool :=
  signBit ≤ x.toBits.toNat

/-- The bits without the sign. -/
def magnitudeBits (x : Float) : Nat :=
  x.toBits.toNat % signBit

def ofMagnitudeBits (negative : Bool) (bits : Nat) : Float :=
  Float.ofBits (UInt64.ofNat (if negative then signBit + bits else bits))

def infinity : Float := ofMagnitudeBits false infinityBits

def nan : Float := 0.0 / 0.0

def isFinite (x : Float) : Bool :=
  magnitudeBits x < infinityBits

def isInfinite (x : Float) : Bool :=
  magnitudeBits x == infinityBits

/-- The exact value of a finite double. -/
def dyadic? (x : Float) : Option Dyadic :=
  let field : Nat := magnitudeBits x / Nat.pow 2 52
  let fraction : Nat := magnitudeBits x % Nat.pow 2 52
  if field = 2047 then none
  -- subnormal numbers have no leading bit
  else if field = 0 then some ⟨isNegative x, fraction, -1074⟩
  else some ⟨isNegative x, Nat.pow 2 52 + fraction, field - 1075⟩

/-- The whole number nearest to `num / den`, the even one of two. -/
def roundQuotient (num den : Nat) : Nat :=
  let quotient := num / den
  let twice := 2 * (num % den)
  if twice < den then quotient
  else if den < twice then quotient + 1
  else quotient + quotient % 2

/-- The greatest `k` with `2 ^ k ≤ num / den`, for positive numbers. -/
def binaryOrder (num den : Nat) : Int :=
  let order : Int := (num.log2 : Int) - (den.log2 : Int)
  -- the quotient of the leading powers of two is at most one place too high
  let reached :=
    if 0 ≤ order then den * Nat.pow 2 order.toNat ≤ num
    else den ≤ num * Nat.pow 2 (-order).toNat
  if reached then order else order - 1

/-- The bits of the magnitude nearest to `num / den`. The unit of the last place is a power of two
not below `2 ^ (-1074)` that leaves 53 binary digits; a carry out of them runs into the exponent
field, where it belongs. -/
def roundedBits (num den : Nat) : Nat :=
  if num = 0 then 0
  else
    let unit := max (binaryOrder num den - 52) (-1074)
    let units :=
      if 0 ≤ unit then roundQuotient num (den * Nat.pow 2 unit.toNat)
      else roundQuotient (num * Nat.pow 2 (-unit).toNat) den
    min ((unit + 1074).toNat * Nat.pow 2 52 + units) infinityBits

/-- The double nearest to `± num / den`. -/
def ofRatio (negative : Bool) (num den : Nat) : Float :=
  ofMagnitudeBits negative (roundedBits num den)

/-- The double nearest to a dyadic number. -/
def ofDyadic (d : Dyadic) : Float :=
  if 0 ≤ d.exponent then ofRatio d.negative (d.significand * Nat.pow 2 d.exponent.toNat) 1
  else ofRatio d.negative d.significand (Nat.pow 2 (-d.exponent).toNat)

/-- The double nearest to an integer, infinite if the integer is out of range. -/
def ofInt (n : Int) : Float :=
  ofRatio (n < 0) n.natAbs 1

/-- The double nearest to an integer, unless it is out of range. -/
def ofInt? (n : Int) : Option Float :=
  if isFinite (ofInt n) then some (ofInt n) else none

end Double

namespace Dyadic

def signed (d : Dyadic) : Int :=
  if d.negative then -(d.significand : Int) else d.significand

/-- The greatest integer not above the number. -/
def floor (d : Dyadic) : Int :=
  if 0 ≤ d.exponent then d.signed * Nat.pow 2 d.exponent.toNat
  else Int.fdiv d.signed (Nat.pow 2 (-d.exponent).toNat)

/-- The least integer not below the number. -/
def ceil (d : Dyadic) : Int :=
  -floor { d with negative := !d.negative }

/-- The integer next to the number on the side of zero. -/
def trunc (d : Dyadic) : Int :=
  if d.negative then d.ceil else d.floor

/-- The number as an integer, if it is one. -/
def toInt? (d : Dyadic) : Option Int :=
  if d.floor = d.ceil then some d.floor else none

/-- The significand counted in units of a smaller power of two. -/
def unitsOf (d : Dyadic) (exponent : Int) : Nat :=
  d.significand * Nat.pow 2 (d.exponent - exponent).toNat

end Dyadic

namespace Double

/-- The integer that a double is equal to, if there is one. -/
def toInt? (x : Float) : Option Int :=
  (dyadic? x).bind Dyadic.toInt?

/-- Applies a function into the integers; what is not finite stays as it is. -/
def throughInt (f : Dyadic → Int) (x : Float) : Float :=
  match dyadic? x with
  | some d => ofInt (f d)
  | none => x

/-- The remainder of the division that truncates: its sign is that of the dividend. Without a
quotient the remainder is not a number. -/
def remainder (x y : Float) : Float :=
  match dyadic? x, dyadic? y with
  | some a, some b =>
    if b.significand = 0 then nan
    else
      -- in units of the smaller power of two both are whole numbers
      let unit := min a.exponent b.exponent
      ofDyadic ⟨a.negative, a.unitsOf unit % b.unitsOf unit, unit⟩
  -- the divisor is infinite
  | some _, none => if y.isNaN then nan else x
  | none, _ => nan

end Double

end YapLang
