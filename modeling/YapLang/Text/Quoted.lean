import YapLang.Text
import YapLang.Text.Printable

/-!
# Quoted text

Messages and nested values show a text between quotes. Single quotes are used unless the text has a
single quote and no double quote; what would end the text or is not printable is escaped.
-/
namespace YapLang.Text

/-- The digits of a number in base sixteen, at least as many as the width. -/
def hex (width : Nat) (n : Nat) : List Char :=
  let digits := Nat.toDigits 16 n
  List.replicate (width - digits.length) '0' ++ digits

/-- An escape by number, as short as the number allows. -/
def numericEscape (n : Nat) : List Char :=
  if n < 0x100 then '\\' :: 'x' :: hex 2 n
  else if n < 0x10000 then '\\' :: 'u' :: hex 4 n
  else '\\' :: 'U' :: hex 8 n

/-- A letter as it stands between the given quotes. -/
def escapeQuoted (quote : Char) : Letter → List Char
  | .char c =>
    if c = quote ∨ c = '\\' then ['\\', c]
    else if c = '\n' then ['\\', 'n']
    else if c = '\r' then ['\\', 'r']
    else if c = '\t' then ['\\', 't']
    else if isPrintable c then [c]
    else numericEscape c.toNat
  | .half unit => numericEscape unit.code

/-- The quote that a text is put between. -/
def quoteFor (letters : List Letter) : Char :=
  if letters.contains (.char '\'') && !letters.contains (.char '"') then '"' else '\''

/-- A text between quotes. -/
def quoted (text : Text) : String :=
  let quote := quoteFor text.letters
  String.ofList (quote :: (text.letters.flatMap (escapeQuoted quote) ++ [quote]))

/-- A text with the halves written as escapes. -/
def withoutHalves (text : Text) : String :=
  String.ofList (text.letters.flatMap fun
    | .char c => [c]
    | .half unit => numericEscape unit.code)

end YapLang.Text
