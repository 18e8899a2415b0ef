import YapLang.Text.Quoted

/-!
# Streams and what they take

A stream in memory takes every text. Any other one encodes the letters, and its encoding need not
have a code for each of them; a text with such letters is not written at all.
-/
namespace YapLang.Text

structure Encoding where
  name : String
  /-- Whether a letter has a code. -/
  takes : Letter → Bool
  /-- Why the others have none. -/
  reason : String

/-- All characters have codes. -/
def Encoding.utf8 : Encoding where
  name := "utf-8"
  takes := Letter.isChar
  reason := "surrogates not allowed"

/-- Letters in a row that have no code, and how many letters stand before them. -/
structure Unencodable where
  encoding : String
  reason : String
  offset : Nat
  letters : List Letter
  deriving DecidableEq, Repr

/-- What keeps a text from being encoded. -/
def Encoding.unencodable? (encoding : Encoding) (text : Text) : Option Unencodable :=
  -- only the first letters without a code are named, as far as they stand together
  let rest := text.letters.dropWhile encoding.takes
  match rest.takeWhile (!encoding.takes ·) with
  | [] => none
  | letters =>
    some ⟨encoding.name, encoding.reason, text.letters.length - rest.length, letters⟩

/-- What is written of texts one after the other: all up to the first one that cannot be encoded,
and what keeps it from that. -/
def writtenParts : List Text → String × Option Unencodable
  | [] => ("", none)
  | text :: rest =>
    match Encoding.utf8.unencodable? text with
    | some cause => ("", some cause)
    -- a text that can be encoded has no halves, so its head is all of it
    | none => (text.head ++ (writtenParts rest).1, (writtenParts rest).2)

def Unencodable.message (e : Unencodable) : String :=
  let place :=
    match e.letters with
    | [letter] =>
      "character '" ++ String.ofList (numericEscape letter.code) ++ "' in position " ++
        toString e.offset
    | letters =>
      "characters in position " ++ toString e.offset ++ "-" ++
        toString (e.offset + letters.length - 1)
  "'" ++ e.encoding ++ "' codec can't encode " ++ place ++ ": " ++ e.reason

end YapLang.Text

namespace YapLang

/-- Where a program prints. -/
inductive Stream where
  | memory
  | encoded (encoding : Text.Encoding)

/-- What keeps a text from being written. -/
def Stream.refusal? : Stream → Text → Option Text.Unencodable
  | memory, _ => none
  | encoded encoding, text => encoding.unencodable? text

end YapLang
