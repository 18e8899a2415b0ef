import YapLang.Datum
import YapLang.Datum.Piece

/-!
# Reading a literal

A literal is a number with at most one sign, the sum of a real and an imaginary number, quoted texts
in a row, a constant, or a collection in brackets. Parentheses may stand around each of them. What
is well formed need not denote a datum: denote nothing, and there are no other sums.
-/
namespace YapLang.Datum

inductive Number where
  | int (n : Int)
  | double (x : Float)
  | complex
  deriving Repr

namespace Number

def toDatum : Number → Datum
  | int n => .int n
  | double x => .double x
  | complex => .complex

def negate : Number → Number
  | int n => .int (-n)
  | double x => .double (-x)
  | complex => complex

end Number

/-- What a part of a literal stands for. A sign needs a number without one, and so does the right
side of a sum, so numbers are told apart from what has only its datum. -/
inductive Meaning where
  | unsigned (n : Number)
  | signed (n : Number)
  /-- The name that is the empty set when it is called. -/
  | setName
  | datum (d : Except Fault Datum)

namespace Meaning

def malformed : Meaning := datum (.error .malformed)

def toDatum : Meaning → Except Fault Datum
  | unsigned n => .ok n.toDatum
  | signed n => .ok n.toDatum
  | setName => .error .malformed
  | datum d => d

/-- A number with a sign in front of it. -/
def withSign (negative : Bool) : Meaning → Meaning
  | unsigned n => signed (if negative then n.negate else n)
  | _ => malformed

def isReal : Meaning → Bool
  | unsigned (.int _) | unsigned (.double _) | signed (.int _) | signed (.double _) => true
  | _ => false

/-- The sum or difference of two numbers. -/
def join (left right : Meaning) : Meaning :=
  match right with
  -- the right side is imaginary and has no sign of its own
  | unsigned .complex => if left.isReal then datum (.ok .complex) else malformed
  | _ => malformed

def ofName (s : String) : Meaning :=
  match s with
  | "None" => datum (.ok .null)
  | "True" => datum (.ok (.bool true))
  | "False" => datum (.ok (.bool false))
  | "set" => setName
  | _ => malformed

/-- Quoted texts in a row are one text. Bytes do not mix with others. -/
def ofQuoted? (pieces : List Piece) : Option Meaning :=
  if pieces.all (· = .bytes) then some (datum (.ok .bytes))
  else if pieces.contains .bytes then none
  else if pieces.contains .template then some malformed
  else
    let whole : Text := pieces.foldl (fun before piece =>
      match piece with
      | .text s => before ++ s
      | _ => before) ""
    some (datum (.ok (.text whole)))

end Meaning

/-- A step of reading: it takes pieces off the front of the list, or fails. -/
abbrev PieceReading := StateT (List Piece) Option

namespace PieceReading

def next : PieceReading Piece
  | [] => none
  | piece :: rest => some (piece, rest)

/-- Takes the next piece if it is the given mark, and says whether it was. -/
def accept (c : Char) : PieceReading Bool
  | [] => some (false, [])
  | piece :: rest => if piece = .mark c then some (true, rest) else some (false, piece :: rest)

def acceptSign : PieceReading Bool := do
  if ← accept '+' then return true else accept '-'

def expect (c : Char) : PieceReading Unit := do
  unless ← accept c do failure

/-- The pieces of a class at the front are taken. -/
def takeWhile (within : Piece → Bool) : PieceReading (List Piece) :=
  fun pieces => some (pieces.takeWhile within, pieces.dropWhile within)

/-- Items between commas, up to what closes them. A comma may follow the last one. -/
def itemsUntil {α : Type} (close : PieceReading Bool) (item : PieceReading α) :
    (fuel : Nat) → PieceReading (List α)
  | 0 => failure
  | fuel + 1 => do
    if ← close then
      return []
    else
      let first ← item
      if ← accept ',' then
        let rest ← itemsUntil close item fuel
        return first :: rest
      else if ← close then
        return [first]
      else
        failure

/-- What follows the first item of a collection. -/
def moreUntil {α : Type} (close : PieceReading Bool) (item : PieceReading α) (budget : Nat) :
    PieceReading (List α) := do
  if ← accept ',' then
    itemsUntil close item budget
  else if ← close then
    return []
  else
    failure

/-- After an opening parenthesis. A comma makes a tuple of what would be one part. -/
def parenthesized (budget : Nat) (part : PieceReading Meaning) : PieceReading Meaning := do
  if ← accept ')' then
    return .datum (tupleOf [])
  else
    let first ← part
    if ← accept ')' then
      return first
    else
      expect ','
      let rest ← itemsUntil (accept ')') part budget
      return .datum (tupleOf ((first :: rest).map Meaning.toDatum))

/-- After an opening bracket. -/
def bracketed (budget : Nat) (part : PieceReading Meaning) : PieceReading Meaning := do
  let items ← itemsUntil (accept ']') part budget
  return .datum (listOf (items.map Meaning.toDatum))

/-- The entry of a dictionary. -/
def entry (part : PieceReading Meaning) :
    PieceReading (Except Fault Datum × Except Fault Datum) := do
  let key ← part
  expect ':'
  let value ← part
  return (key.toDatum, value.toDatum)

/-- After an opening brace: a set, or a dictionary, which may be empty. -/
def braced (budget : Nat) (part : PieceReading Meaning) : PieceReading Meaning := do
  if ← accept '\x7d' then
    return .datum (dictOf [])
  else
    let first ← part
    if ← accept ':' then
      let value ← part
      let rest ← moreUntil (accept '\x7d') (entry part) budget
      return .datum (dictOf ((first.toDatum, value.toDatum) :: rest))
    else
      let rest ← moreUntil (accept '\x7d') part budget
      return .datum (setOf ((first :: rest).map Meaning.toDatum))

def isQuoted : Piece → Bool
  | .text _ | .bytes | .template => true
  | _ => false

/-- A number, texts, a name, or what stands in brackets, if brackets may still be opened: `part?`
reads what is between them. -/
def atom (budget : Nat) (part? : Option (PieceReading Meaning)) : PieceReading Meaning := do
  match ← next with
  | .int n => return .unsigned (.int n)
  | .double x => return .unsigned (.double x)
  | .imaginary => return .unsigned .complex
  | .ellipsis => return .datum (.ok .ellipsis)
  | .name s => return Meaning.ofName s
  | .mark c =>
    match part?, c with
    | some part, '(' => parenthesized budget part
    | some part, '[' => bracketed budget part
    | some part, '\x7b' => braced budget part
    | _, _ => failure
  -- a line end inside of a literal, outside of brackets
  | .lineEnd => failure
  -- adjacent texts are taken together, so that bytes among them are seen
  | quoted => (Meaning.ofQuoted? (quoted :: (← takeWhile isQuoted)) : Option Meaning)

/-- A call may follow. Only that of the empty set is known. -/
def called (mayOpen : Bool) (first : PieceReading Meaning) : PieceReading Meaning := do
  let callee ← first
  if ← accept '(' then
    expect ')'
    match mayOpen, callee with
    -- the parentheses of the call count as brackets
    | true, .setName => return .datum (.ok .set)
    | _, _ => failure
  else
    return callee

/-- Signs and what they stand before. -/
def operand (first : PieceReading Meaning) : PieceReading Meaning := do
  let signs ← takeWhile fun piece => piece = .mark '+' || piece = .mark '-'
  let meaning ← first
  -- the innermost sign applies first, and a second one is refused
  return signs.foldr (fun sign meaning => meaning.withSign (sign = .mark '-')) meaning

/-- Further terms of a sum, joined from the left. -/
def moreTerms (term : PieceReading Meaning) : (fuel : Nat) → Meaning → PieceReading Meaning
  | 0, _ => failure
  | fuel + 1, left => do
    if ← acceptSign then
      let right ← term
      moreTerms term fuel (left.join right)
    else
      return left

def sum (budget : Nat) (term : PieceReading Meaning) : PieceReading Meaning := do
  let first ← term
  moreTerms term budget first

/-- A part of a literal, in which brackets may be nested as deep as told. -/
def part (budget : Nat) : (depth : Nat) → PieceReading Meaning
  | 0 => sum budget (operand (called false (atom budget none)))
  | depth + 1 => sum budget (operand (called true (atom budget (some (part budget depth)))))

/-- Whether nothing but line ends is left. -/
def atEnd : PieceReading Bool :=
  fun pieces => some (pieces.all (· = .lineEnd), pieces)

/-- A whole literal. Outside of brackets, too, a comma makes a tuple. -/
def literal (budget depth : Nat) : PieceReading (Except Fault Datum) := do
  let first ← part budget depth
  if ← atEnd then
    return first.toDatum
  else
    expect ','
    let rest ← itemsUntil atEnd (part budget depth) budget
    return tupleOf ((first :: rest).map Meaning.toDatum)

end PieceReading

/-- How deep the brackets of a literal may be nested. -/
def nestingLimit : Nat := 200

/-- Reads the text of a literal. The number of pieces bounds the rounds of every loop. -/
def ofText [CharacterNames] (s : String) : Except Fault Datum :=
  let read? := do
    let pieces ← Piece.ofText? s
    (PieceReading.literal (pieces.length + 1) nestingLimit).run' pieces
  read?.getD (.error .malformed)

end YapLang.Datum
