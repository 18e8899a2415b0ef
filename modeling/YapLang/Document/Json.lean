import YapLang.Document
import YapLang.Number.Numeral
import YapLang.Text.JsonString

/-!
# Documents as JSON text

Each item of a list and each field of an object has a line of its own, two blanks further in than
what it belongs to. Three words beyond JSON stand for the doubles that are not finite. The reader
takes any layout, and says where and why a text is not JSON.
-/
namespace YapLang.Document

/-- Numbers in JSON text have the form of data, with the words of the format for what is not finite.
-/
def jsonNumbers : Layout :=
  { Layout.data with infinity := "Infinity", nan := "NaN" }

/-! ### Writing -/

def newline (indent : Nat) : String :=
  String.ofList ('\n' :: List.replicate indent ' ')

/-- What stands between brackets, each on a line of its own. -/
def bracketed (opening closing : String) (indent : Nat) : List (List Text) → List Text
  | [] => [opening ++ closing]
  | inner =>
    (opening ++ newline (indent + 2) : Text) ::
      (List.intercalate [("," ++ newline (indent + 2) : Text)] inner ++
        [(newline indent ++ closing : Text)])

mutual

/-- The parts in which a document is written as JSON text, with at least `indent` blanks before all
lines but the first. -/
def jsonParts (indent : Nat) : Document → List Text
  | null => ["null"]
  | bool true => ["true"]
  | bool false => ["false"]
  | int n => [toString n]
  | double x => [jsonNumbers.double x]
  | text s => [Text.JsonString.encode Text.JsonString.isNotControl s]
  | list items => bracketed "[" "]" indent (itemParts (indent + 2) items)
  | object fields => bracketed "\x7b" "\x7d" indent (fieldParts (indent + 2) fields)

def itemParts (indent : Nat) : List Document → List (List Text)
  | [] => []
  | d :: rest => jsonParts indent d :: itemParts indent rest

def fieldParts (indent : Nat) : List (Text × Document) → List (List Text)
  | [] => []
  | (key, d) :: rest =>
    (Text.JsonString.encode Text.JsonString.isNotControl key :: ": " :: jsonParts indent d) ::
      fieldParts indent rest

end

/-- A document as JSON text. -/
def toJson (d : Document) : Text :=
  Text.join (d.jsonParts 0)

/-! ### Reading -/

/-- Why a text is not JSON. -/
inductive JsonFault where
  | noValue
  | noName
  | noColon
  | noComma
  | extraData
  | byteOrderMark
  | string (fault : Text.JsonString.Fault)
  /-- An integer with more digits than are allowed. -/
  | hugeInteger (digits : Nat)
  deriving DecidableEq, Repr

def JsonFault.complaint : JsonFault → String
  | noValue => "Expecting value"
  | noName => "Expecting property name enclosed in double quotes"
  | noColon => "Expecting ':' delimiter"
  | noComma => "Expecting ',' delimiter"
  | extraData => "Extra data"
  | byteOrderMark => "Unexpected UTF-8 BOM (decode using utf-8-sig)"
  | string .unterminated => "Unterminated string starting at"
  | string .controlCharacter => "Invalid control character at"
  | string .badEscape => "Invalid \\escape"
  | string .badUnit => "Invalid \\uXXXX escape"
  | hugeInteger digits =>
    "Exceeds the limit (" ++ toString Text.digitLimit ++
      " digits) for integer string conversion: value has " ++ toString digits ++
      " digits; use sys.set_int_max_str_digits() to increase the limit"

/-- A fault, with the text from its place onward. -/
abbrev JsonRejection := JsonFault × List Char

def isJsonBlank (c : Char) : Bool :=
  c == ' ' || c == '\t' || c == '\n' || c == '\r'

def skipBlanks (cs : List Char) : List Char :=
  cs.dropWhile isJsonBlank

def isAsciiDigit (c : Char) : Bool :=
  '0' ≤ c && c ≤ '9'

/-- The whole part of a number: a zero, or digits that do not start with one. -/
def wholeDigits (cs : List Char) : List Char × List Char :=
  match cs with
  | '0' :: rest => (['0'], rest)
  | _ => (cs.takeWhile isAsciiDigit, cs.dropWhile isAsciiDigit)

/-- A point and at least one digit. -/
def fractionDigits (cs : List Char) : Option (List Char) × List Char :=
  match cs with
  | '.' :: rest =>
    if (rest.takeWhile isAsciiDigit).isEmpty then (none, cs)
    else (some (rest.takeWhile isAsciiDigit), rest.dropWhile isAsciiDigit)
  | _ => (none, cs)

/-- An exponent mark, an optional sign and at least one digit. -/
def exponentDigits (cs : List Char) : Option Numeral.Exponent × List Char :=
  match cs with
  | mark :: more =>
    if mark = 'e' ∨ mark = 'E' then
      let (sign, rest) := Numeral.splitSign more
      if (rest.takeWhile isAsciiDigit).isEmpty then (none, cs)
      else (some ⟨mark, sign, rest.takeWhile isAsciiDigit⟩, rest.dropWhile isAsciiDigit)
    else (none, cs)
  | [] => (none, cs)

/-- A number without its sign: an integer if it has neither point nor exponent. A fault is reported
at `start`. -/
def unsignedNumber (start : List Char) (negative : Bool) (cs : List Char) :
    Except JsonRejection (Document × List Char) :=
  let (whole, rest) := wholeDigits cs
  if whole.isEmpty then .error (.noValue, start)
  else
    let (fraction, rest) := fractionDigits rest
    let (exponent, rest) := exponentDigits rest
    if fraction.isNone ∧ exponent.isNone then
      -- an integer keeps all its digits, but not every number of them is taken
      if Text.digitLimit < whole.length then .error (.hugeInteger whole.length, start)
      else
        let n : Int := Text.digitsValue whole
        .ok (.int (if negative then -n else n), rest)
    else
      let numeral : Numeral := ⟨whole, fraction.isSome, fraction.getD [], exponent⟩
      .ok (.double (numeral.toDouble negative), rest)

/-- The words that are values of their own. -/
def jsonWords : List (List Char × Document) :=
  [ ("null".toList, .null), ("true".toList, .bool true), ("false".toList, .bool false),
    ("NaN".toList, .double Double.nan), ("Infinity".toList, .double Double.infinity),
    ("-Infinity".toList, .double (-Double.infinity)) ]

/-- A word or a number. -/
def scalar (cs : List Char) : Except JsonRejection (Document × List Char) :=
  -- words come first, as one of them begins like a number
  match jsonWords.find? fun (word, _) => word.isPrefixOf cs with
  | some (word, value) => .ok (value, cs.drop word.length)
  | none =>
    match cs with
    | '-' :: rest => unsignedNumber cs true rest
    | _ => unsignedNumber cs false cs

/-- A string after its opening quote; an unterminated one is reported where it starts. -/
def jsonString (fuel : Nat) (start cs : List Char) : Except JsonRejection (Text × List Char) :=
  match Text.JsonString.body fuel cs with
  | .ok (letters, rest) => .ok (.ofLetters letters, rest)
  | .error (.unterminated, _) => .error (.string .unterminated, start)
  | .error (fault, rest) => .error (.string fault, rest)

mutual

/-- Reads a value at the front of a text. Every second step uses up a character, so twice their
number is fuel enough. -/
def jsonValue : (fuel : Nat) → List Char → Except JsonRejection (Document × List Char)
  | 0, cs => .error (.noValue, cs)
  | fuel + 1, cs =>
    match cs with
    | '"' :: rest => (jsonString fuel cs rest).map fun (s, rest) => (.text s, rest)
    | '[' :: rest =>
      match skipBlanks rest with
      | ']' :: rest => .ok (.list [], rest)
      | rest => (jsonList fuel rest).map fun (items, rest) => (.list items, rest)
    | '{' :: rest =>
      match skipBlanks rest with
      | '}' :: rest => .ok (.object [], rest)
      | rest => (jsonObject fuel [] rest).map fun (fields, rest) => (.object fields, rest)
    | _ => scalar cs

/-- Reads the items of a list up to its end. -/
def jsonList : (fuel : Nat) → List Char → Except JsonRejection (List Document × List Char)
  | 0, cs => .error (.noValue, cs)
  | fuel + 1, cs => do
    let (first, rest) ← jsonValue fuel cs
    match skipBlanks rest with
    | ']' :: rest => return ([first], rest)
    | ',' :: rest =>
      let (items, rest) ← jsonList fuel (skipBlanks rest)
      return (first :: items, rest)
    | rest => throw (.noComma, rest)

/-- Reads the fields of an object up to its end. Of two fields of one name the later one counts. -/
def jsonObject : (fuel : Nat) → List (Text × Document) → List Char →
    Except JsonRejection (List (Text × Document) × List Char)
  | 0, _, cs => .error (.noName, cs)
  | fuel + 1, before, cs =>
    match cs with
    | '"' :: rest => do
      let (key, rest) ← jsonString fuel cs rest
      match skipBlanks rest with
      | ':' :: rest =>
        let (value, rest) ← jsonValue fuel (skipBlanks rest)
        let fields := setField before key value
        match skipBlanks rest with
        | '}' :: rest => return (fields, rest)
        | ',' :: rest => jsonObject fuel fields (skipBlanks rest)
        | rest => throw (.noComma, rest)
      | rest => throw (.noColon, rest)
    | _ => .error (.noName, cs)

end

/-- Where a text is not JSON. -/
structure JsonError where
  fault : JsonFault
  /-- The number of characters before the fault. -/
  offset : Nat
  line : Nat
  column : Nat
  deriving DecidableEq, Repr

/-- The place of a fault is found from the characters before it. -/
def JsonError.locate (text : List Char) (rejection : JsonRejection) : JsonError :=
  let offset := text.length - rejection.2.length
  let before := text.take offset
  let lineStart := before.reverse.takeWhile (· ≠ '\n')
  ⟨rejection.1, offset, before.count '\n' + 1, lineStart.length + 1⟩

/-- The complaint, and the place of all faults but a huge integer. -/
def JsonError.message (e : JsonError) : String :=
  match e.fault with
  | .hugeInteger _ => e.fault.complaint
  | _ =>
    e.fault.complaint ++ ": line " ++ toString e.line ++ " column " ++ toString e.column ++
      " (char " ++ toString e.offset ++ ")"

/-- Reads a text that is one value, with blanks around it. -/
def wholeValue (cs : List Char) : Except JsonRejection Document := do
  if cs.head? = some '\ufeff' then throw (.byteOrderMark, cs)
  let (d, rest) ← jsonValue (2 * cs.length + 2) (skipBlanks cs)
  match skipBlanks rest with
  | [] => return d
  | rest => throw (.extraData, rest)

/-- Reads JSON text. -/
def ofJson (s : String) : Except JsonError Document :=
  match wholeValue s.toList with
  | .ok d => .ok d
  | .error rejection => .error (.locate s.toList rejection)

end YapLang.Document
