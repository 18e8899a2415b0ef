import YapLang.Text.Digit
import YapLang.Text.Literal
import YapLang.Text.Quoted

/-!
# JSON strings

A JSON string stands between double quotes. The escapes are fixed by the format, but a writer may
choose which characters to write plainly; a character above the sixteen bits of an escape is written
as two of them.
-/
namespace YapLang.Text.JsonString

/-- An escape of four digits in base sixteen. -/
def unit (n : Nat) : List Char :=
  '\\' :: 'u' :: hex 4 n

/-- A character by its number, as one escape or as a pair. -/
def numbered (n : Nat) : List Char :=
  if n < 0x10000 then unit n
  else unit (0xd800 + (n - 0x10000) / 0x400) ++ unit (0xdc00 + (n - 0x10000) % 0x400)

/-- The character that a letter after a backslash stands for, and the other way round. -/
def shortEscapes : List (Char × Char) :=
  [ ('"', '"'), ('\\', '\\'), ('n', '\n'), ('r', '\r'), ('t', '\t'), ('b', '\x08'), ('f', '\x0c') ]

def shortEscape? (letter : Letter) : Option Char :=
  (shortEscapes.find? fun (_, meant) => .char meant == letter).map Prod.fst

/-- The letters for a letter of a string; `plain` says which other letters need no escape. -/
def escape (plain : Letter → Bool) (letter : Letter) : List Letter :=
  match shortEscape? letter with
  | some c => [.char '\\', .char c]
  | none => if plain letter then [letter] else (numbered letter.code).map .char

/-- A text as a JSON string. -/
def encode (plain : Letter → Bool) (text : Text) : Text :=
  "\"" ++ ofLetters (text.letters.flatMap (escape plain)) ++ "\""

/-- Only what the format does not allow plainly is escaped. -/
def isNotControl (letter : Letter) : Bool :=
  0x20 ≤ letter.code

/-- Only printable ASCII is written plainly. -/
def isPlainAscii (letter : Letter) : Bool :=
  0x20 ≤ letter.code && letter.code < 0x7f

inductive Fault where
  | unterminated
  | controlCharacter
  | badEscape
  | badUnit
  deriving DecidableEq, Repr

/-- The character that a letter after a backslash stands for when a string is read. -/
def escaped? (c : Char) : Option Char :=
  if c = '/' then some '/'
  else (shortEscapes.find? fun (letter, _) => letter == c).map Prod.snd

/-- The letter of a pair whose first half has been read, and what follows it. -/
def pair? (high : Nat) : List Char → Option (Letter × List Char)
  | '\\' :: 'u' :: rest =>
    match takeHex? 4 0 rest with
    | none | some (_, []) => none
    | some (low, rest) =>
      -- two escapes that are no pair are two letters
      if 0xd800 ≤ high ∧ high < 0xdc00 ∧ 0xdc00 ≤ low ∧ low < 0xe000 then
        (Letter.ofCode? (0x10000 + (high - 0xd800) * 0x400 + (low - 0xdc00))).map (·, rest)
      else none
  | _ => none

/-- Reads the digits of an escape, and a second escape if the two are a pair. No text ends with an
escape. -/
def letter? (cs : List Char) : Option (Letter × List Char) :=
  match takeHex? 4 0 cs with
  | none | some (_, []) => none
  | some (n, rest) => (pair? n rest).orElse fun _ => (Letter.ofCode? n).map (·, rest)

/-- Reads a string after its opening quote: the letters, and what follows the closing quote. A
fault comes with the text from the place where it is. Each step uses up a character, so their number
is fuel enough. -/
def body : (fuel : Nat) → List Char → Except (Fault × List Char) (List Letter × List Char)
  | 0, cs => .error (.unterminated, cs)
  | _ + 1, [] => .error (.unterminated, [])
  | _ + 1, '"' :: rest => .ok ([], rest)
  | _ + 1, '\\' :: [] => .error (.unterminated, [])
  | fuel + 1, '\\' :: 'u' :: rest =>
    match letter? rest with
    | some (first, rest) => (body fuel rest).map fun (letters, rest) => (first :: letters, rest)
    | none => .error (.badUnit, 'u' :: rest)
  | fuel + 1, '\\' :: letter :: rest =>
    match escaped? letter with
    | some c => (body fuel rest).map fun (letters, rest) => (.char c :: letters, rest)
    | none => .error (.badEscape, '\\' :: letter :: rest)
  | fuel + 1, c :: rest =>
    if isNotControl (.char c) then
      (body fuel rest).map fun (letters, rest) => (.char c :: letters, rest)
    else .error (.controlCharacter, c :: rest)

end YapLang.Text.JsonString
