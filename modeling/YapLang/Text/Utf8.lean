/-!
# Bytes as text

UTF-8 is decoded from left to right. The first byte of a character says how many follow it and which
values the second one may have; a fault names the bytes that cannot be part of a character.
-/
namespace YapLang.Text.Utf8

inductive Reason where
  | startByte
  | continuationByte
  | endOfData
  deriving DecidableEq, Repr

def Reason.text : Reason → String
  | startByte => "invalid start byte"
  | continuationByte => "invalid continuation byte"
  | endOfData => "unexpected end of data"

/-- Bytes that are not part of a character: where they start, how many they are, and the first. -/
structure Malformed where
  offset : Nat
  count : Nat
  first : UInt8
  reason : Reason
  deriving DecidableEq, Repr

/-- The least and the greatest value of each byte after the first. -/
abbrev Follow := List (Nat × Nat)

/-- What a first byte adds to the number of its character, and which bytes follow it. -/
def lead? (b : Nat) : Option (Nat × Follow) :=
  let any := (0x80, 0xbf)
  if b < 0x80 then some (b, [])
  else if b < 0xc2 then none
  else if b < 0xe0 then some (b - 0xc0, [any])
  else if b = 0xe0 then some (0, [(0xa0, 0xbf), any])
  else if b = 0xed then some (0xd, [(0x80, 0x9f), any])
  else if b < 0xf0 then some (b - 0xe0, [any, any])
  else if b = 0xf0 then some (0, [(0x90, 0xbf), any, any])
  else if b < 0xf4 then some (b - 0xf0, [any, any, any])
  else if b = 0xf4 then some (4, [(0x80, 0x8f), any, any])
  else none

/-- Reads the bytes after the first: the number of the character and the rest, or how many bytes
could be read and what is wrong with the next one. -/
def follow (value : Nat) (count : Nat) :
    Follow → List UInt8 → Except (Nat × Reason) (Nat × List UInt8)
  | [], bytes => .ok (value, bytes)
  | _ :: _, [] => .error (count, .endOfData)
  | (least, greatest) :: more, b :: bytes =>
    if least ≤ b.toNat ∧ b.toNat ≤ greatest then
      follow (64 * value + (b.toNat - 0x80)) (count + 1) more bytes
    else .error (count, .continuationByte)

/-- Decodes bytes after characters that are held in reverse. Each character takes at least one byte,
so their number is fuel enough. -/
def decodeFrom : (fuel : Nat) → (offset : Nat) → List Char → List UInt8 →
    Except Malformed (List Char)
  | _, _, before, [] => .ok before.reverse
  | 0, offset, _, b :: _ => .error ⟨offset, 1, b, .startByte⟩
  | fuel + 1, offset, before, b :: bytes =>
    match lead? b.toNat with
    | none => .error ⟨offset, 1, b, .startByte⟩
    | some (value, more) =>
      match follow value 1 more bytes with
      | .ok (n, rest) =>
        decodeFrom fuel (offset + 1 + more.length) (Char.ofNat n :: before) rest
      | .error (count, reason) => .error ⟨offset, count, b, reason⟩

/-- Decodes bytes. -/
def decode (bytes : List UInt8) : Except Malformed (List Char) :=
  decodeFrom bytes.length 0 [] bytes

end YapLang.Text.Utf8
