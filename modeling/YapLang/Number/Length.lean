import YapLang.Number.Double

/-!
# Euclidean lengths

The length of a vector of doubles, computed in doubles. The squares are added with the losses of the
additions kept beside the sum, and one step of Newton's iteration mends the square root. The result
is within one unit of the last place, but not always the nearest double: programs can see which one
it is, so the order of the operations is part of the definition.
-/
namespace YapLang.Double

/-- A sum of squares. Each coordinate is cut into a high and a low half, and the losses of adding
the products of high halves, of a high and a low half, and of low halves are counted apart. The sum
starts at one, so that no product of coordinates up to one exceeds it. -/
structure SquareSum where
  sum : Float := 1.0
  high : Float := 0.0
  cross : Float := 0.0
  low : Float := 0.0

/-- What is lost when `x` is added to a sum that is not smaller. -/
def additionLoss (sum x : Float) : Float :=
  (sum - (sum + x)) + x

/-- A number as the sum of two that have half as many digits each, so that their products are exact:
multiplying by `2 ^ 27 + 1` moves the lower half out of reach. -/
def halves (x : Float) : Float × Float :=
  let moved := x * 134217729.0
  let high := moved - (moved - x)
  (high, x - high)

namespace SquareSum

def addHigh (s : SquareSum) (x : Float) : SquareSum :=
  { s with sum := s.sum + x, high := s.high + additionLoss s.sum x }

def addCross (s : SquareSum) (x : Float) : SquareSum :=
  { s with sum := s.sum + x, cross := s.cross + additionLoss s.sum x }

def addLow (s : SquareSum) (x : Float) : SquareSum :=
  { s with sum := s.sum + x, low := s.low + additionLoss s.sum x }

/-- Adds the square of a coordinate. The square of its low half is small enough to count as a loss
right away. -/
def add (s : SquareSum) (x : Float) : SquareSum :=
  let (high, low) := halves x
  let t := (s.addHigh (high * high)).addCross (2.0 * high * low)
  { t with low := t.low + low * low }

/-- Takes the square of a number away. -/
def subtract (s : SquareSum) (x : Float) : SquareSum :=
  let (high, low) := halves x
  ((s.addHigh (-high * high)).addCross (-2.0 * high * low)).addLow (-low * low)

/-- The value of the sum with the losses made good. -/
def total (s : SquareSum) : Float :=
  s.sum - 1.0 + (s.high + s.cross + s.low)

/-- The square root: that of the total, and then half of what its square leaves, divided by it. -/
def root (s : SquareSum) : Float :=
  let first := s.total.sqrt
  first + (s.subtract first).total / (2.0 * first)

end SquareSum

/-- The length where the coordinates can be brought below one by a power of two. -/
def scaledLength (scale : Float) (xs : List Float) : Float :=
  (xs.foldl (fun s x => s.add (x * scale)) ({} : SquareSum)).root / scale

/-- The length where the greatest coordinate is so small that no power of two brings it there: the
coordinates are divided by it. -/
def quotientLength (greatest : Float) (xs : List Float) : Float :=
  let squares := xs.foldl (fun s x => s.addHigh (x / greatest * (x / greatest))) ({} : SquareSum)
  greatest * (squares.sum - 1.0 + squares.high).sqrt

/-- The least `e` with `|x| < 2 ^ e`, for a finite `x` other than zero. -/
def binaryBound (d : Dyadic) : Int :=
  d.exponent + d.significand.log2 + 1

/-- The Euclidean length of a vector. An infinite coordinate makes it infinite, whatever the others
are. -/
def euclideanLength (xs : List Float) : Float :=
  let sizes := xs.map Float.abs
  let greatest := sizes.foldl (fun best x => if best < x then x else best) 0.0
  if sizes.any isInfinite then infinity
  else if sizes.any Float.isNaN then nan
  else if sizes.length ≤ 1 then greatest
  else
    match dyadic? greatest with
    | none => nan
    | some d =>
      if d.significand = 0 then greatest
      else if binaryBound d < -1023 then quotientLength greatest sizes
      else scaledLength (ofDyadic ⟨false, 1, -binaryBound d⟩) sizes

end YapLang.Double
