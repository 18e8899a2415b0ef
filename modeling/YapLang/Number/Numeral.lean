import YapLang.Number.Decimal
import YapLang.Text.Blank
import YapLang.Text.Digit

/-!
# Numerals

An unsigned decimal numeral is a sequence of digits with at most one point, followed by an optional
exponent. It is the one form of number in source text; texts that are coerced to numbers know a
sign, the word for infinity and integers in bases other than ten beside it.
-/
namespace YapLang

/-- The exponent of a numeral: its mark, its sign, and at least one digit. -/
structure Numeral.Exponent where
  mark : Char
  sign : Option Char
  digits : List Char
  deriving DecidableEq, Repr

/-- The parts of an unsigned decimal numeral, as they are written. -/
structure Numeral where
  whole : List Char
  point : Bool
  fraction : List Char
  exponent : Option Numeral.Exponent
  deriving DecidableEq, Repr

namespace Numeral

def Exponent.text (e : Exponent) : List Char :=
  e.mark :: (e.sign.toList ++ e.digits)

def Exponent.value (e : Exponent) : Int :=
  if e.sign = some '-' then -(Text.digitsValue e.digits : Int) else Text.digitsValue e.digits

/-- The characters of an exponent, if there is one. -/
def exponentText : Option Exponent → List Char
  | some e => e.text
  | none => []

/-- The power of ten that an exponent stands for; without one it is zero. -/
def exponentValue : Option Exponent → Int
  | some e => e.value
  | none => 0

/-- The characters of a numeral. -/
def text (n : Numeral) : List Char :=
  n.whole ++ (if n.point then ['.'] else []) ++ n.fraction ++ exponentText n.exponent

/-- The number that a numeral denotes. -/
def toDecimal (n : Numeral) : Decimal :=
  ⟨Text.digitsValue (n.whole ++ n.fraction), exponentValue n.exponent - n.fraction.length⟩

def toDouble (n : Numeral) (negative : Bool) : Float :=
  n.toDecimal.toDouble negative

/-- The sign in front of a text, if there is one. -/
def splitSign : List Char → Option Char × List Char
  | '+' :: rest => (some '+', rest)
  | '-' :: rest => (some '-', rest)
  | cs => (none, cs)

/-- The exponent at the front of a text. A mark without digits is no exponent. -/
def splitExponent : List Char → Option Exponent × List Char
  | [] => (none, [])
  | mark :: more =>
    if mark = 'e' ∨ mark = 'E' then
      let (sign, digits) := splitSign more
      if (digits.takeWhile Text.isDigit).isEmpty then (none, mark :: more)
      else (some ⟨mark, sign, digits.takeWhile Text.isDigit⟩, digits.dropWhile Text.isDigit)
    else (none, mark :: more)

/-- The longest numeral at the front of a text, and what follows it. -/
def split? (cs : List Char) : Option (Numeral × List Char) :=
  let whole := cs.takeWhile Text.isDigit
  match cs.dropWhile Text.isDigit with
  | '.' :: more =>
    let fraction := more.takeWhile Text.isDigit
    -- a point needs a digit on one side
    if whole.isEmpty && fraction.isEmpty then none
    else
      let (exponent, rest) := splitExponent (more.dropWhile Text.isDigit)
      some (⟨whole, true, fraction, exponent⟩, rest)
  | more =>
    if whole.isEmpty then none
    else
      let (exponent, rest) := splitExponent more
      some (⟨whole, false, [], exponent⟩, rest)

/-! ### Splitting loses nothing -/

theorem splitSign_append (cs : List Char) : (splitSign cs).1.toList ++ (splitSign cs).2 = cs := by
  unfold splitSign
  split <;> rfl

theorem splitExponent_append (cs : List Char) :
    exponentText (splitExponent cs).1 ++ (splitExponent cs).2 = cs := by
  cases cs with
  | nil => rfl
  | cons mark more =>
    have signed := splitSign_append more
    simp only [splitExponent]
    split
    · split
      · rfl
      · simp [exponentText, Exponent.text, signed]
    · rfl

theorem text_append_of_split? {cs rest : List Char} {n : Numeral}
    (found : split? cs = some (n, rest)) : n.text ++ rest = cs := by
  have whole := List.takeWhile_append_dropWhile (p := Text.isDigit) (l := cs)
  simp only [split?] at found
  split at found
  · rename_i more point
    split at found
    · cases found
    · cases found
      rw [point] at whole
      simp [text, splitExponent_append, whole]
  · split at found
    · cases found
    · cases found
      simp [text, splitExponent_append]

theorem text_ne_nil_of_split? {cs rest : List Char} {n : Numeral}
    (found : split? cs = some (n, rest)) : n.text ≠ [] := by
  simp only [split?] at found
  split at found
  · split at found
    · cases found
    · cases found
      simp [text]
  · split at found
    · cases found
    · cases found
      simp_all [text]

/-- The numeral that a text is. -/
def ofText? (cs : List Char) : Option Numeral :=
  match split? cs with
  | some (n, []) => some n
  | _ => none

end Numeral

namespace Text

/-- The number that digits of a base denote; there must be at least one. -/
def baseNumber? (base : Nat) (cs : List Char) : Option Nat :=
  if cs.isEmpty then none
  else (cs.mapM (baseDigit? base)).map fun digits => digits.foldl (base * · + ·) 0

/-- The integer that a text with a base mark denotes. -/
def markedInteger? : List Char → Option Nat
  | '0' :: mark :: digits =>
    if mark = 'x' ∨ mark = 'X' then baseNumber? 16 digits
    else if mark = 'o' ∨ mark = 'O' then baseNumber? 8 digits
    else if mark = 'b' ∨ mark = 'B' then baseNumber? 2 digits
    else none
  | _ => none

/-- The double that a signed numeral or a signed infinity denotes. -/
def signedNumber? (cs : List Char) : Option Float :=
  let (sign, magnitude) := Numeral.splitSign cs
  let negative := sign == some '-'
  if magnitude = "Infinity".toList then
    some (Double.ofMagnitudeBits negative Double.infinityBits)
  else (Numeral.ofText? magnitude).map (·.toDouble negative)

/-- The number that a text stands for in arithmetic. Blanks at the ends do not count, the empty text
is zero, and a text of no known form is not a number. There is no answer for an integer with a
base mark that is out of the range of doubles. -/
def coerce? (s : String) : Option Float :=
  let cs := trimBlanks s.toList
  if cs.isEmpty then some 0.0
  else
    match signedNumber? cs with
    | some x => some x
    | none =>
      match markedInteger? cs with
      -- the one case without an answer
      | some n => Double.ofInt? n
      | none => some Double.nan

/-- Whether each underscore stands between two digits. -/
def separatorsFit (within : Char → Bool) : (before : Option Char) → List Char → Bool
  | _, [] => true
  | before, '_' :: rest =>
    before.any within && rest.head?.any within && separatorsFit within (some '_') rest
  | _, c :: rest => separatorsFit within (some c) rest

/-- The number that the text of a number token denotes. Beyond the numerals that source text has, a
token made by hand may hold blanks at the ends, a sign, single underscores between digits, and
words for infinity and for what is not a number, in any case. -/
def tokenNumber? (s : String) : Option Float :=
  let (sign, magnitude) :=
    Numeral.splitSign (trim (fun c => isBlank c && !isInformationSeparator c) s.toList)
  let negative := sign == some '-'
  let word := String.ofList (magnitude.map Char.toLower)
  if word = "inf" ∨ word = "infinity" then
    some (Double.ofMagnitudeBits negative Double.infinityBits)
  else if word = "nan" then some Double.nan
  else if separatorsFit isDigit none magnitude then
    (Numeral.ofText? (magnitude.filter (· ≠ '_'))).map (·.toDouble negative)
  else none

end Text

end YapLang
