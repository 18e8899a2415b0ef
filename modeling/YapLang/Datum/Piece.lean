import YapLang.Number.Numeral
import YapLang.Text.Literal

/-!
# The pieces of a literal

The text of a literal is cut into numbers, quoted texts, and marks. Blanks and comments divide
them. A line end counts only outside of brackets, where the literal is over; and a line outside of
brackets must not be indented, unless there is nothing on it.
-/
namespace YapLang.Datum

variable [CharacterNames]

inductive Piece where
  | int (n : Nat)
  | double (x : Float)
  /-- A number with the mark of the imaginary unit. -/
  | imaginary
  | text (s : Text)
  | bytes
  /-- A text with places to fill in, which denotes no datum. -/
  | template
  | name (s : String)
  | ellipsis
  | mark (c : Char)
  | lineEnd
  deriving DecidableEq, Repr

namespace Piece

/-! ### Names -/

/-- Whether a character can be part of a name. All characters beyond ASCII count: no name with such
a character denotes anything. -/
def isNameChar (c : Char) : Bool :=
  c.isAlphanum || c = '_' || 128 ≤ c.toNat

/-! ### Numbers -/

/-- The digits at the front of a text, with underscores among them left out, and what follows. Each
underscore has to stand between two digits. -/
def digits? (within : Char → Bool) (cs : List Char) : Option (List Char × List Char) :=
  let run := cs.takeWhile fun c => within c || c = '_'
  if Text.separatorsFit within none run then
    some (run.filter (· ≠ '_'), cs.dropWhile fun c => within c || c = '_')
  else none

/-- An integer in a base other than ten. One underscore may stand before the digits. -/
def based? (base : Nat) (cs : List Char) : Option (Piece × List Char) := do
  let cs := match cs with
    | '_' :: rest => rest
    | _ => cs
  let (digits, rest) ← digits? (fun c => (Text.baseDigit? base c).isSome) cs
  let n ← Text.baseNumber? base digits
  return (.int n, rest)

/-- The exponent at the front of a text. Its mark must be followed by digits. -/
def exponent? : List Char → Option (Option Numeral.Exponent × List Char)
  | [] => some (none, [])
  | c :: more =>
    if c = 'e' ∨ c = 'E' then do
      let (sign, more) := Numeral.splitSign more
      let (digits, rest) ← digits? Char.isDigit more
      if digits.isEmpty then none else some (some ⟨c, sign, digits⟩, rest)
    else some (none, c :: more)

/-- An integer in base ten. Only zero may start with the digit zero. -/
def decimalInt? (digits : List Char) : Option Piece :=
  if digits.all (· = '0') then some (.int 0)
  else if digits.head? = some '0' ∨ Text.digitLimit < digits.length then none
  else some (.int (Text.digitsValue digits))

/-- A number in base ten at the front of a text. -/
def decimal? (cs : List Char) : Option (Piece × List Char) := do
  let (whole, rest) ← digits? Char.isDigit cs
  let (point, fraction, rest) ← match rest with
    | '.' :: more => (digits? Char.isDigit more).map fun (fraction, rest) => (true, fraction, rest)
    | _ => some (false, [], rest)
  let (exponent, rest) ← exponent? rest
  match rest with
  | 'j' :: rest | 'J' :: rest => return (.imaginary, rest)
  | _ =>
    if point || exponent.isSome then
      return (.double (Numeral.toDouble ⟨whole, point, fraction, exponent⟩ false), rest)
    else
      return (← decimalInt? whole, rest)

/-- A number at the front of a text. No name may follow right after it. -/
def number? (cs : List Char) : Option (Piece × List Char) := do
  let (piece, rest) ← match cs with
    | '0' :: 'x' :: rest | '0' :: 'X' :: rest => based? 16 rest
    | '0' :: 'o' :: rest | '0' :: 'O' :: rest => based? 8 rest
    | '0' :: 'b' :: rest | '0' :: 'B' :: rest => based? 2 rest
    | _ => decimal? cs
  if rest.head?.any isNameChar then none else some (piece, rest)

/-! ### Quoted texts -/

/-- What the word in front of a quote says about the text: whether backslashes stand for themselves,
and which piece the text is. -/
inductive Quotation where
  | plain (raw : Bool)
  | bytes (raw : Bool)
  | template

def quotation? (word : List Char) : Option Quotation :=
  match String.ofList (word.map Char.toLower) with
  | "" | "u" => some (.plain false)
  | "r" => some (.plain true)
  | "b" => some (.bytes false)
  | "br" | "rb" => some (.bytes true)
  | "f" | "fr" | "rf" => some .template
  | _ => none

/-- The characters up to three closing quotes, and what follows them. -/
def tripleClosing? (quote : Char) : List Char → Option (List Char × List Char)
  | [] => none
  | '\\' :: c :: rest =>
    (tripleClosing? quote rest).map fun (body, rest) => ('\\' :: c :: body, rest)
  | c :: rest =>
    if c = quote ∧ rest.take 2 = [quote, quote] then some ([], rest.drop 2)
    else (tripleClosing? quote rest).map fun (body, rest) => (c :: body, rest)

/-- The body of a quoted text after its first quote, and what follows. Three quotes at the front
start a text that may run over several lines. -/
def body? (quote : Char) (cs : List Char) : Option (List Char × List Char) :=
  if cs.take 2 = [quote, quote] then tripleClosing? quote (cs.drop 2) else Text.closing? quote cs

/-- Whether every `\x` in the body of a bytes literal has its two digits. -/
def bytesFit : List Char → Bool
  | '\\' :: 'x' :: rest => (Text.takeHex? 2 0 rest).isSome && bytesFit rest
  | '\\' :: _ :: rest => bytesFit rest
  | _ :: rest => bytesFit rest
  | [] => true

/-- The piece that a quoted text is. Bytes are given by ASCII characters. -/
def ofBody? (body : List Char) : Quotation → Option Piece
  | .plain true => some (.text (String.ofList body))
  | .plain false => (Text.bodyValue? body).map .text
  | .bytes raw => if body.all (·.toNat < 128) && (raw || bytesFit body) then some .bytes else none
  | .template => some .template

/-- A name, or a quoted text with the word in front of it. -/
def word? (cs : List Char) : Option (Piece × List Char) :=
  let word := cs.takeWhile isNameChar
  let rest := cs.dropWhile isNameChar
  let quoted? (quote : Char) (more : List Char) : Option (Piece × List Char) := do
    let quotation ← quotation? word
    let (body, rest) ← body? quote more
    return (← ofBody? body quotation, rest)
  match rest with
  | '"' :: more => quoted? '"' more
  | '\'' :: more => quoted? '\'' more
  | _ => if word.isEmpty then none else some (.name (String.ofList word), rest)

/-! ### All pieces -/

def marks : List Char :=
  ['(', ')', '[', ']', '\x7b', '\x7d', ',', ':', '+', '-']

/-- The piece at the front of a text that starts with no blank. -/
def first? : List Char → Option (Piece × List Char)
  | [] => none
  | '.' :: '.' :: '.' :: rest => some (.ellipsis, rest)
  | '.' :: rest => if rest.head?.any Char.isDigit then number? ('.' :: rest) else none
  | c :: rest =>
    if c.isDigit then number? (c :: rest)
    else if marks.contains c then some (.mark c, rest)
    else word? (c :: rest)

/-- The number of brackets around what follows a piece. -/
def depthAfter (depth : Nat) : Piece → Nat
  | mark c =>
    if c = '(' ∨ c = '[' ∨ c = '\x7b' then depth + 1
    else if c = ')' ∨ c = ']' ∨ c = '\x7d' then depth - 1
    else depth
  | _ => depth

/-- The column of the first character on a line that is no blank, and the line from there. A tab
goes to the next multiple of eight, a form feed back to the start. Over a line end after a backslash
the line goes on; the first column other than zero at such a place is the one that counts. -/
def margin? : (column kept : Nat) → List Char → Option (Nat × List Char)
  | column, kept, ' ' :: rest => margin? (column + 1) kept rest
  | column, kept, '\t' :: rest => margin? ((column / 8 + 1) * 8) kept rest
  | _, kept, '\x0c' :: rest => margin? 0 kept rest
  | column, kept, '\\' :: '\n' :: rest =>
    if rest.isEmpty then none else margin? column (if kept = 0 then column else kept) rest
  | _, _, '\\' :: _ => none
  | column, kept, rest => some (if kept = 0 then column else kept, rest)

/-- The pieces of a text. At the start of a line its margin is read first. Each step uses up a
character or ends the start of a line. -/
def scan? : (fuel depth : Nat) → (atStart : Bool) → List Char → Option (List Piece)
  | 0, _, _, _ => none
  | fuel + 1, depth, true, cs => do
    let (column, line) ← margin? 0 0 cs
    if line.head? = some '#' ∨ line.head? = some '\n' then
      match line.dropWhile (· ≠ '\n') with
      | [] => some []
      | _ :: rest => scan? fuel depth true rest
    else if depth = 0 ∧ column ≠ 0 then none
    else scan? fuel depth false line
  | _, _, false, [] => some []
  | fuel + 1, depth, false, c :: rest =>
    if c = ' ' ∨ c = '\t' ∨ c = '\x0c' then scan? fuel depth false rest
    else if c = '#' then scan? fuel depth false (rest.dropWhile (· ≠ '\n'))
    else if c = '\n' then
      if depth = 0 then (scan? fuel depth true rest).map (lineEnd :: ·)
      else scan? fuel depth true rest
    else if c = '\\' then
      match rest with
      | '\n' :: more => if more.isEmpty then none else scan? fuel depth false more
      | _ => none
    else do
      let (piece, rest) ← first? (c :: rest)
      let pieces ← scan? fuel (piece.depthAfter depth) false rest
      return piece :: pieces

/-- The pieces of the text of a literal. It must not hold the null character; spaces and tabs in
front of it do not count. -/
def ofText? (s : String) : Option (List Piece) :=
  if s.contains '\x00' then none
  else
    let cs := Text.unifyLineEnds (s.toList.dropWhile fun c => c = ' ' || c = '\t')
    scan? (2 * cs.length + 2) 0 true cs

end Piece

end YapLang.Datum
