import YapLang.Number.Length
import YapLang.Value

/-!
# The functions of the `Math` namespace

Outside its domain a function is not a number, and where a result is too large it is infinity. The
functions into the integers go through integers, so they have no negative zero.
-/
namespace YapLang.MathFunction

/-- The magnitude of the first number with the sign of the second. -/
def withSignOf (x y : Float) : Float :=
  if Double.isNegative y then -x.abs else x.abs

/-- Halves go up. -/
def roundHalfUp (x : Float) : Float :=
  if Double.isFinite x then Double.throughInt Dyadic.floor (x + 0.5) else x

def signOf (x : Float) : Float :=
  if x > 0.0 then 1.0 else if x < 0.0 then -1.0 else x

/-- A logarithm is minus infinity at zero. -/
def logarithm (log : Float → Float) (x : Float) : Float :=
  if x == 0.0 then -Double.infinity else log x

/-- Powers, except that one to an infinite power is not a number, and that whatever grows beyond the
finite numbers is plus infinity. -/
def power (x y : Float) : Float :=
  if y.isNaN || (x.abs == 1.0 && Double.isInfinite y) then Double.nan
  else if x == 0.0 && y < 0.0 then Double.infinity
  else
    let result := x.pow y
    if Double.isFinite x && Double.isFinite y && Double.isInfinite result then Double.infinity
    else result

/-- The first of the numbers that no other one precedes. -/
def extreme (precedes : Float → Float → Bool) (none : Float) (xs : List Float) : Float :=
  if xs.any Float.isNaN then Double.nan
  else
    match xs with
    | [] => none
    | x :: rest => rest.foldl (fun best y => if precedes y best then y else best) x

/-- The value of a function at the right number of arguments. Random numbers are not drawn here. -/
def apply : MathFunction → List Float → Float
  | abs, [x] => x.abs
  | ceil, [x] => Double.throughInt Dyadic.ceil x
  | floor, [x] => Double.throughInt Dyadic.floor x
  | round, [x] => roundHalfUp x
  | trunc, [x] => Double.throughInt Dyadic.trunc x
  | sign, [x] => signOf x
  | sqrt, [x] => x.sqrt
  | cbrt, [x] => withSignOf (x.abs.pow (1.0 / 3.0)) x
  | exp, [x] => x.exp
  | log, [x] => logarithm Float.log x
  | log2, [x] => logarithm (fun y => y.log / Float.log 2.0) x
  | log10, [x] => logarithm (fun y => y.log / Float.log 10.0) x
  | sin, [x] => x.sin
  | cos, [x] => x.cos
  | tan, [x] => x.tan
  | asin, [x] => x.asin
  | acos, [x] => x.acos
  | atan, [x] => x.atan
  | atan2, [y, x] => y.atan2 x
  | pow, [x, y] => power x y
  | min, xs => extreme (fun x y => x < y) Double.infinity xs
  | max, xs => extreme (fun x y => y < x) (-Double.infinity) xs
  | hypot, xs => Double.euclideanLength xs
  | _, _ => Double.nan

/-- The member of the namespace with a given name. -/
def member? (name : Text) : Option Value :=
  match name with
  | .whole "PI" => some (.number 3.141592653589793)
  | .whole "E" => some (.number 2.718281828459045)
  | _ => (all.find? fun function => (function.name : Text) == name).map fun function =>
    .builtin (.math function)

end YapLang.MathFunction
