import YapLang.Number.Layout
import YapLang.Text.Quoted
import YapLang.Value

/-!
# The text of values

A value has a plain text, which operators and `join` use, and a console text, which `print` writes.
They differ in how items of an array are shown and put together, and in what stands for an array
inside itself: while the items of an array are shown it is active, and where an active array comes
up again the rendering is cut. So rendering ends for arrays that contain themselves, and an array
that merely occurs twice is shown twice.
-/
namespace YapLang.Value

/-- The text of a value that is not an array. -/
def scalarText (heap : Heap) : Value → Text
  | number x => Layout.printed.double x
  | text s => s
  | bool true => "true"
  | bool false => "false"
  | undefined => "undefined"
  | array _ => ""
  | closure ref => "[function " ++ heap.closureName ref ++ "]"
  | builtin function => "<native " ++ function.name ++ ">"
  | method _ name _ => "<native " ++ name.name ++ ">"
  | mathNamespace => "[object Math]"

/-- Along a path no array becomes active twice, so one more than the number of arrays is fuel enough
for every rendering. -/
def renderFuel (heap : Heap) : Nat :=
  heap.arrays.size + 1

/-- The plain text of a value while the given arrays are active. Items that are `undefined` are left
out. -/
def textWithin (heap : Heap) : (fuel : Nat) → (active : List ArrayRef) → Value → Text
  -- not reached with the fuel of `renderFuel`
  | 0, _, array _ => ""
  | fuel + 1, active, array ref =>
    if active.contains ref then ""
    else
      Text.intercalate "," ((heap.items ref).toList.map fun
        | undefined => ""
        | item => textWithin heap fuel (ref :: active) item)
  | _, _, value => value.scalarText heap

/-- The plain text of a value. -/
def toText (heap : Heap) (value : Value) : Text :=
  textWithin heap (renderFuel heap) [] value

/-- The console text of a value while the given arrays are active. Nested texts are quoted. An array
without items is shown before it is asked whether it is active. -/
def inspectWithin (heap : Heap) :
    (fuel : Nat) → (nested : Bool) → (active : List ArrayRef) → Value → Text
  -- not reached either
  | 0, _, _, array _ => ""
  | fuel + 1, _, active, array ref =>
    if (heap.items ref).isEmpty then "[]"
    else if active.contains ref then "[Circular]"
    else
      let parts := (heap.items ref).toList.map (inspectWithin heap fuel true (ref :: active))
      "[ " ++ Text.intercalate ", " parts ++ " ]"
  | _, true, _, text s => Text.quoted s
  | _, _, _, value => value.scalarText heap

/-- The text that `print` writes for a value. -/
def inspect (heap : Heap) (value : Value) : Text :=
  inspectWithin heap (renderFuel heap) false [] value

/-- The plain texts of the items of an array with a separator between them. For each item the array
alone is active at first. -/
def joinText (heap : Heap) (separator : Text) (ref : ArrayRef) : Text :=
  Text.intercalate separator ((heap.items ref).toList.map fun
    | undefined => ""
    | item => textWithin heap (renderFuel heap) [ref] item)

/-- The plain text of an array of arguments, which nothing else refers to. -/
def argumentsText (heap : Heap) (args : List Value) : Text :=
  Text.intercalate "," (args.map fun
    | undefined => ""
    | arg => textWithin heap (renderFuel heap) [] arg)

end YapLang.Value
