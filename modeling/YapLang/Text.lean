/-!
# Texts

A text is a sequence of letters. A letter is a character, or one half of a pair of code units that
stands alone: it is no character, but an escape can name it, and texts hold it like any other
letter. A text is kept as the string before its first half, followed by each half with the string
after it; so a text without halves is its string.
-/
namespace YapLang

/-- A half of a pair of code units, by its place among them. -/
structure Half where
  index : Fin 0x800
  deriving DecidableEq, Repr

namespace Half

/-- The number of the code unit. -/
def code (half : Half) : Nat :=
  0xd800 + half.index

def ofCode? (n : Nat) : Option Half :=
  if inRange : 0xd800 ≤ n ∧ n < 0xe000 then some ⟨⟨n - 0xd800, by omega⟩⟩ else none

end Half

inductive Letter where
  | char (c : Char)
  | half (unit : Half)
  deriving DecidableEq, Repr

namespace Letter

/-- The number of a letter. -/
def code : Letter → Nat
  | char c => c.toNat
  | half unit => unit.code

/-- The letter with a given number. -/
def ofCode? (n : Nat) : Option Letter :=
  -- a number that is too large has no letter at all
  if n.isValidChar then some (.char (Char.ofNat n)) else (Half.ofCode? n).map .half

def isChar : Letter → Bool
  | char _ => true
  | half _ => false

end Letter

structure Text where
  /-- The characters before the first half. -/
  head : String
  /-- The halves, each with the characters up to the next one. -/
  tail : List (Half × String)
  deriving DecidableEq, Repr, Inhabited

namespace Text

/-- A string is a text without halves. -/
@[match_pattern] abbrev whole (s : String) : Text := ⟨s, []⟩

instance : Coe String Text := ⟨whole⟩

/-! ### Letters -/

/-- The letters of a string. -/
def charLetters (s : String) : List Letter :=
  s.toList.map .char

def letters (text : Text) : List Letter :=
  charLetters text.head ++ text.tail.flatMap fun (half, s) => .half half :: charLetters s

/-- Cuts letters before each half. -/
def cutAtHalves : List Letter → List Char × List (Half × List Char)
  | [] => ([], [])
  | .char c :: rest => (c :: (cutAtHalves rest).1, (cutAtHalves rest).2)
  | .half half :: rest => ([], (half, (cutAtHalves rest).1) :: (cutAtHalves rest).2)

/-- The text of the given letters. -/
def ofLetters (letters : List Letter) : Text :=
  ⟨String.ofList (cutAtHalves letters).1,
    (cutAtHalves letters).2.map fun (half, cs) => (half, String.ofList cs)⟩

/-- The number of letters. -/
def length (text : Text) : Nat :=
  text.letters.length

def isEmpty (text : Text) : Bool :=
  text.head.isEmpty && text.tail.isEmpty

/-! ### Order -/

/-- Texts are compared by the numbers of their letters. -/
def codes (text : Text) : List Nat :=
  text.letters.map Letter.code

instance : LT Text := ⟨fun s t => s.codes < t.codes⟩

instance (s t : Text) : Decidable (s < t) :=
  inferInstanceAs (Decidable (s.codes < t.codes))

instance : LE Text := ⟨fun s t => ¬t < s⟩

instance (s t : Text) : Decidable (s ≤ t) :=
  inferInstanceAs (Decidable ¬t < s)

/-! ### Texts in a row -/

/-- Puts a text after a text that is given by its parts. -/
def appendTo (head : String) : (tail : List (Half × String)) → Text → Text
  -- the two strings that meet become one
  | [], text => ⟨head ++ text.head, text.tail⟩
  | (half, s) :: rest, text =>
    ⟨head, (half, (appendTo s rest text).head) :: (appendTo s rest text).tail⟩

instance : Append Text := ⟨fun s t => appendTo s.head s.tail t⟩

/-- Texts in a row with a separator between them. -/
def intercalate (separator : Text) : List Text → Text
  | [] => ""
  | [text] => text
  | text :: next :: rest => text ++ separator ++ intercalate separator (next :: rest)

/-- Texts in a row. -/
def join : List Text → Text
  | [] => ""
  | text :: rest => text ++ join rest

end Text

end YapLang
