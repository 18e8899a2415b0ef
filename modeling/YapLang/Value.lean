import YapLang.Tree

/-!
# Values

Numbers, texts, truth values and `undefined` are themselves. Arrays and functions are shared: a
value refers to them, and two references are the same array or function if and only if they are
equal. The built-in functions are known by name; a method taken from an array is a function of its
own each time, so it carries a stamp that no other one has.
-/
namespace YapLang

/-- The place of an array on the heap. -/
structure ArrayRef where
  index : Nat
  deriving DecidableEq, Repr

/-- The place of a user function on the heap. -/
structure ClosureRef where
  index : Nat
  deriving DecidableEq, Repr

/-- The place of a scope among all scopes. -/
structure ScopeRef where
  index : Nat
  deriving DecidableEq, Repr

/-- The functions of the `Math` namespace. -/
inductive MathFunction where
  | abs | ceil | floor | round | trunc | sign | sqrt | cbrt | exp | log | log2 | log10
  | sin | cos | tan | asin | acos | atan | atan2 | pow | random | min | max | hypot
  deriving DecidableEq, Repr

inductive Builtin where
  | print
  | math (function : MathFunction)
  deriving DecidableEq, Repr

inductive ArrayMethod where
  | push | pop | join | indexOf
  deriving DecidableEq, Repr

inductive Value where
  | number (x : Float)
  | text (s : Text)
  | bool (b : Bool)
  | undefined
  | array (ref : ArrayRef)
  | closure (ref : ClosureRef)
  | builtin (function : Builtin)
  | method (stamp : Nat) (name : ArrayMethod) (receiver : ArrayRef)
  | mathNamespace
  deriving DecidableEq, Repr, Inhabited

/-- A user function: its body runs in a scope inside the one where the function was declared. -/
structure Closure where
  name : Text
  params : List Text
  body : List Node
  scope : ScopeRef

/-- The arrays and user functions that values refer to. -/
structure Heap where
  arrays : Array (Array Value)
  closures : Array Closure

namespace Heap

def empty : Heap := ⟨#[], #[]⟩

/-- The items of an array. -/
def items (heap : Heap) (ref : ArrayRef) : Array Value :=
  heap.arrays.getD ref.index #[]

/-- The name of a user function. -/
def closureName (heap : Heap) (ref : ClosureRef) : Text :=
  ((heap.closures[ref.index]?).map Closure.name).getD ""

end Heap

namespace MathFunction

/-- The names under which the namespace has its functions. -/
def name : MathFunction → String
  | abs => "abs"
  | ceil => "ceil"
  | floor => "floor"
  | round => "round"
  | trunc => "trunc"
  | sign => "sign"
  | sqrt => "sqrt"
  | cbrt => "cbrt"
  | exp => "exp"
  | log => "log"
  | log2 => "log2"
  | log10 => "log10"
  | sin => "sin"
  | cos => "cos"
  | tan => "tan"
  | asin => "asin"
  | acos => "acos"
  | atan => "atan"
  | atan2 => "atan2"
  | pow => "pow"
  | random => "random"
  | min => "min"
  | max => "max"
  | hypot => "hypot"

def all : List MathFunction :=
  [ abs, ceil, floor, round, trunc, sign, sqrt, cbrt, exp, log, log2, log10, sin, cos, tan, asin,
    acos, atan, atan2, pow, random, min, max, hypot ]

/-- The number of arguments, for a function that has a fixed one. -/
def arity? : MathFunction → Option Nat
  | min | max | hypot => none
  | random => some 0
  | atan2 | pow => some 2
  | _ => some 1

end MathFunction

namespace Builtin

def name : Builtin → String
  | print => "print"
  | math function => "Math." ++ function.name

def arity? : Builtin → Option Nat
  | print => none
  | math function => function.arity?

end Builtin

namespace ArrayMethod

def name : ArrayMethod → String
  | push => "push"
  | pop => "pop"
  | join => "join"
  | indexOf => "indexOf"

def ofName? : Text → Option ArrayMethod
  | .whole "push" => some push
  | .whole "pop" => some pop
  | .whole "join" => some join
  | .whole "indexOf" => some indexOf
  | _ => none

def arity? : ArrayMethod → Option Nat
  | push | join => none
  | pop => some 0
  | indexOf => some 1

end ArrayMethod

namespace Value

/-- The name of the type of a value. -/
def typeName : Value → String
  | number _ => "Number"
  | text _ => "String"
  | bool _ => "Boolean"
  | undefined => "Undefined"
  | array _ => "Array"
  | closure _ | builtin _ | method .. => "Function"
  | mathNamespace => "Object"

/-- Whether a value counts as true in a condition. -/
def isTruthy : Value → Bool
  | number x => !(x == 0.0 || x.isNaN)
  | text s => !s.isEmpty
  | bool b => b
  | undefined => false
  | _ => true

/-- Equality without conversion: of one type and equal; what is shared is equal to itself only. -/
def strictEquals : Value → Value → Bool
  | number x, number y => x == y
  | text s, text t => s == t
  | bool a, bool b => a == b
  | undefined, undefined => true
  | array r, array q => r == q
  | closure r, closure q => r == q
  | builtin f, builtin g => f == g
  | method s _ _, method t _ _ => s == t
  | mathNamespace, mathNamespace => true
  | _, _ => false

end Value

end YapLang
