/-!
# Blanks

The characters that count as white space at the ends of a text that is read as a number, and between
the two words of the call marker. The gaps between tokens are narrower: they know five of them.
-/
namespace YapLang.Text

/-- The ranges of white space characters, ascending, ends included. -/
def blankRanges : List (Nat × Nat) :=
  [ (0x09, 0x0d), (0x1c, 0x20), (0x85, 0x85), (0xa0, 0xa0), (0x1680, 0x1680), (0x2000, 0x200a),
    (0x2028, 0x2029), (0x202f, 0x202f), (0x205f, 0x205f), (0x3000, 0x3000) ]

def isBlank (c : Char) : Bool :=
  blankRanges.any fun (first, last) => first ≤ c.toNat && c.toNat ≤ last

/-- The four control characters that divide files, groups, records and units. They are blanks, but
not around the number of a token. -/
def isInformationSeparator (c : Char) : Bool :=
  0x1c ≤ c.toNat && c.toNat ≤ 0x1f

/-- The text without the characters of a class at its two ends. -/
def trim (within : Char → Bool) (cs : List Char) : List Char :=
  (((cs.dropWhile within).reverse).dropWhile within).reverse

def trimBlanks (cs : List Char) : List Char :=
  trim isBlank cs

end YapLang.Text
