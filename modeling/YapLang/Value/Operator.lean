import YapLang.Fault
import YapLang.Number.Numeral
import YapLang.Value.Text

/-!
# Conversions and operators

Operators convert their operands: texts and arrays are put together as texts, everything else is
counted as numbers. The one thing that can go wrong besides an operator that does not exist is an
integer that no double can hold.
-/
namespace YapLang.Value

/-- The number that a text counts as. No number is written with a half. -/
def textNumber : Text → Except Fault Float
  | .whole s =>
    match Text.coerce? s with
    | some x => .ok x
    | none => .error .integerTooLarge
  | _ => .ok Double.nan

/-- The number that a value counts as. An array without items is zero, and one with a single item
counts as the text of that item. -/
def toNumber (heap : Heap) : Value → Except Fault Float
  | number x => .ok x
  | text s => textNumber s
  | bool b => .ok (if b then 1.0 else 0.0)
  | array ref =>
    match (heap.items ref).toList with
    | [] => .ok 0.0
    | [item] => textNumber (item.toText heap)
    | _ => .ok Double.nan
  | _ => .ok Double.nan

/-- A truth value as a number; other values as they are. -/
def unbool : Value → Value
  | bool b => number (if b then 1.0 else 0.0)
  | value => value

/-- Equality with conversion. Values of one type are compared as they are. Of different types, truth
values count as numbers, arrays as their texts, and a text is compared with a number as a number. -/
def looseEquals (heap : Heap) (a b : Value) : Except Fault Bool :=
  if a.typeName = b.typeName then .ok (strictEquals a b)
  else
    match a.unbool, b.unbool with
    | number x, number y => .ok (x == y)
    | number x, text t => (textNumber t).map (x == ·)
    | text s, number y => (textNumber s).map (· == y)
    | array r, number y => (textNumber ((array r).toText heap)).map (· == y)
    | number x, array r => (textNumber ((array r).toText heap)).map (x == ·)
    | array r, text t => .ok ((array r).toText heap == t)
    | text s, array r => .ok (s == (array r).toText heap)
    | _, _ => .ok false

/-- Whether a value makes `+` put texts together. -/
def isTextual : Value → Bool
  | text _ | array _ => true
  | _ => false

/-- Applies a function to two values as numbers. -/
def arithmetic (heap : Heap) (f : Float → Float → Float) (a b : Value) : Except Fault Value := do
  let x ← a.toNumber heap
  let y ← b.toNumber heap
  return number (f x y)

/-- Compares two texts by their letters, and other values as numbers. -/
def ordering (heap : Heap) (texts : Text → Text → Bool) (numbers : Float → Float → Bool) :
    Value → Value → Except Fault Value
  | text s, text t => .ok (bool (texts s t))
  | a, b => do
    let x ← a.toNumber heap
    let y ← b.toNumber heap
    return bool (numbers x y)

/-- Applies an operator with two operands. -/
def binary (heap : Heap) (op : Text) (a b : Value) : Except Fault Value :=
  match op with
  | .whole "+" =>
    if a.isTextual || b.isTextual then .ok (text (a.toText heap ++ b.toText heap))
    else arithmetic heap (· + ·) a b
  | .whole "-" => arithmetic heap (· - ·) a b
  | .whole "*" => arithmetic heap (· * ·) a b
  | .whole "/" => arithmetic heap (· / ·) a b
  | .whole "%" => arithmetic heap Double.remainder a b
  | .whole "==" => (looseEquals heap a b).map bool
  | .whole "!=" => (looseEquals heap a b).map fun equal => bool !equal
  | .whole "===" => .ok (bool (strictEquals a b))
  | .whole "!==" => .ok (bool !(strictEquals a b))
  | .whole "<" => ordering heap (fun s t => s < t) (fun x y => x < y) a b
  | .whole ">" => ordering heap (fun s t => t < s) (fun x y => y < x) a b
  | .whole "<=" => ordering heap (fun s t => s ≤ t) (fun x y => x ≤ y) a b
  | .whole ">=" => ordering heap (fun s t => t ≤ s) (fun x y => y ≤ x) a b
  | _ => .error (.unsupportedBinary op a.typeName b.typeName)

/-- Applies an operator with one operand. -/
def unary (heap : Heap) (op : Text) (a : Value) : Except Fault Value :=
  match op with
  | .whole "!" => .ok (bool !a.isTruthy)
  | .whole "-" => (a.toNumber heap).map fun x => number (-x)
  | .whole "+" => (a.toNumber heap).map number
  | _ => .error (.unsupportedUnary op)

end YapLang.Value
