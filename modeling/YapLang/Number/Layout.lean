import YapLang.Number.Decimal

/-!
# The text of a number

Which digits a number has is settled elsewhere; a layout says how they are written: up to which
order of magnitude positionally, what a whole number ends with, how many digits the exponent has at
least, and the words for what is not finite.
-/
namespace YapLang

/-- The decisions of a number format. The *point* of a number is the position of its decimal point
relative to the first digit: one for `3.5`, zero for `0.35`. -/
structure Layout where
  /-- The least point that is written positionally. -/
  leastPoint : Int
  /-- The greatest point that is written positionally. -/
  greatestPoint : Int
  /-- What follows the digits of a whole number. -/
  wholeMark : String
  /-- The least number of digits of an exponent. -/
  exponentWidth : Nat
  /-- Whether the sign of zero is written. -/
  signedZero : Bool
  /-- The word for infinity. -/
  infinity : String
  /-- The word for what is not a number. -/
  nan : String

namespace Layout

def padLeft (width : Nat) (digits : String) : String :=
  String.ofList (List.replicate (width - digits.length) '0') ++ digits

def zeros (count : Nat) : String :=
  String.ofList (List.replicate count '0')

/-- Digits with a point before the given position, counted from the first digit. -/
def positional (layout : Layout) (digits : List Char) (point : Int) : String :=
  if digits.length ≤ point then
    String.ofList digits ++ zeros (point.toNat - digits.length) ++ layout.wholeMark
  else if 0 < point then
    String.ofList (digits.take point.toNat) ++ "." ++ String.ofList (digits.drop point.toNat)
  else
    "0." ++ zeros (-point).toNat ++ String.ofList digits

/-- Digits with a point after the first one, and a power of ten. -/
def scientific (layout : Layout) (digits : List Char) (exponent : Int) : String :=
  let mantissa :=
    match digits with
    | first :: second :: rest => String.ofList (first :: '.' :: second :: rest)
    | _ => String.ofList digits
  let sign := if exponent < 0 then "-" else "+"
  mantissa ++ "e" ++ sign ++ padLeft layout.exponentWidth (toString exponent.natAbs)

/-- The text of a positive decimal without trailing zeros in its coefficient. -/
def magnitude (layout : Layout) (d : Decimal) : String :=
  let digits := (toString d.coefficient).toList
  let point := d.exponent + digits.length
  if layout.leastPoint ≤ point ∧ point ≤ layout.greatestPoint then
    layout.positional digits point
  else
    layout.scientific digits (point - 1)

def signText (negative : Bool) : String :=
  if negative then "-" else ""

/-- The text of `±` a decimal. -/
def decimal (layout : Layout) (negative : Bool) (d : Decimal) : String :=
  if d.coefficient = 0 then
    signText (negative && layout.signedZero) ++ "0" ++ layout.wholeMark
  else
    signText negative ++ layout.magnitude d.normalize

/-- The text of a double. -/
def double (layout : Layout) (x : Float) : String :=
  match Double.dyadic? x with
  | some d => layout.decimal d.negative (Decimal.shortest d)
  | none =>
    if x.isNaN then layout.nan
    else signText (Double.isNegative x) ++ layout.infinity

/-- The text of an integer, with all its digits. -/
def integer (layout : Layout) (n : Int) : String :=
  layout.decimal (n < 0) ⟨n.natAbs, 0⟩

end Layout

/-- Numbers as a program prints them: positionally from `0.000001` up to, but not including, `1e21`,
whole numbers without a point. -/
def Layout.printed : Layout :=
  ⟨-5, 21, "", 1, false, "Infinity", "NaN"⟩

/-- Numbers as they stand in documents and messages: positionally from `0.0001` up to, but not
including, `1e16`, always with a point or an exponent. -/
def Layout.data : Layout :=
  ⟨-3, 16, ".0", 2, true, "inf", "nan"⟩

end YapLang
