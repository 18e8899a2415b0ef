import YapLang.Text
import YapLang.Text.Digit

/-!
# String literals

A literal stands between two equal quotes. A backslash starts an escape: a control character by its
letter, a letter by its number in base eight or sixteen, a character by its name, or a line end,
which vanishes. A backslash before any other character is kept. No literal holds the null character.
Where a literal ends and what it denotes are two questions: an escape never hides more than the
character after its backslash from the search for the closing quote. Which characters have names is
left open.
-/
namespace YapLang

/-- The characters that have names. -/
class CharacterNames where
  char? : String → Option Char

/-- No character has a name. -/
abbrev CharacterNames.none : CharacterNames := ⟨fun _ => .none⟩

namespace Text

variable [CharacterNames]

/-- Reads exactly `count` digits in base sixteen. -/
def takeHex? : (count : Nat) → (value : Nat) → List Char → Option (Nat × List Char)
  | 0, value, cs => some (value, cs)
  | _ + 1, _, [] => none
  | count + 1, value, c :: cs =>
    match baseDigit? 16 c with
    | some digit => takeHex? count (16 * value + digit) cs
    | none => none

/-- Reads up to `count` digits in base eight. -/
def takeOctal : (count : Nat) → (value : Nat) → List Char → Nat × List Char
  | 0, value, cs => (value, cs)
  | _ + 1, value, [] => (value, [])
  | count + 1, value, c :: cs =>
    match baseDigit? 8 c with
    | some digit => takeOctal count (8 * value + digit) cs
    | none => (value, c :: cs)

/-- The control character or mark that a letter after a backslash stands for. -/
def namedEscape? : Char → Option Char
  | '\\' => some '\\'
  | '\'' => some '\''
  | '"' => some '"'
  | 'a' => some '\x07'
  | 'b' => some '\x08'
  | 'f' => some '\x0c'
  | 'n' => some '\n'
  | 'r' => some '\r'
  | 't' => some '\t'
  | 'v' => some '\x0b'
  | _ => none

/-- Reads a letter given by `count` digits in base sixteen. -/
def hexEscape? (count : Nat) (cs : List Char) : Option (List Letter × List Char) :=
  match takeHex? count 0 cs with
  | some (value, rest) => (Letter.ofCode? value).map fun letter => ([letter], rest)
  | none => none

/-- Reads a character given by its name in braces. -/
def nameEscape? : List Char → Option (List Letter × List Char)
  | '{' :: rest =>
    match rest.takeWhile (· ≠ '}'), rest.dropWhile (· ≠ '}') with
    | first :: name, _ :: more =>
      -- the name is not empty, and its brace is closed
      (CharacterNames.char? (String.ofList (first :: name))).map fun c => ([.char c], more)
    | _, _ => none
  | _ => none

/-- Reads what follows a backslash: the letters it stands for, and the rest. -/
def escape? : List Char → Option (List Letter × List Char)
  | [] => none
  -- the literal goes on in the next line
  | '\n' :: rest => some ([], rest)
  | 'x' :: rest => hexEscape? 2 rest
  | 'u' :: rest => hexEscape? 4 rest
  | 'U' :: rest => hexEscape? 8 rest
  | 'N' :: rest => nameEscape? rest
  | c :: rest =>
    match namedEscape? c with
    | some named => some ([.char named], rest)
    | none =>
      match baseDigit? 8 c with
      | some _ =>
        -- the first digit belongs to the number
        let (value, rest) := takeOctal 3 0 (c :: rest)
        (Letter.ofCode? value).map fun letter => ([letter], rest)
      | none => some ([.char '\\', .char c], rest)

/-- The characters up to the closing quote, and what follows it. A backslash takes the next
character with it; other line ends do not belong in a literal. -/
def closing? (quote : Char) : List Char → Option (List Char × List Char)
  | [] => none
  | '\\' :: c :: rest => (closing? quote rest).map fun (body, rest) => ('\\' :: c :: body, rest)
  | c :: rest =>
    if c = quote then some ([], rest)
    else if c = '\n' then none
    else (closing? quote rest).map fun (body, rest) => (c :: body, rest)

/-- The letters that the body of a literal denotes. Each step uses up a character, so the fuel is
their number. -/
def unescape? : (fuel : Nat) → List Char → Option (List Letter)
  | _, [] => some []
  | 0, _ => none
  | fuel + 1, c :: rest =>
    if c = '\\' then
      match escape? rest with
      | some (value, rest) => (unescape? fuel rest).map (value ++ ·)
      | none => none
    else (unescape? fuel rest).map (.char c :: ·)

/-- The text that the body of a literal denotes. -/
def bodyValue? (body : List Char) : Option Text :=
  (unescape? body.length body).map ofLetters

/-- Each way of ending a line, written as one line feed. -/
def unifyLineEnds : List Char → List Char
  | '\r' :: '\n' :: rest => '\n' :: unifyLineEnds rest
  | '\r' :: rest => '\n' :: unifyLineEnds rest
  | c :: rest => c :: unifyLineEnds rest
  | [] => []

/-- The text that a literal denotes. -/
def literalValue? (s : String) : Option Text :=
  match unifyLineEnds s.toList with
  | quote :: rest =>
    if rest.contains '\x00' then none
    else if quote = '"' ∨ quote = '\'' then
      match closing? quote rest with
      | some (body, []) => bodyValue? body
      | _ => none
    else none
  | [] => none

end Text

end YapLang
