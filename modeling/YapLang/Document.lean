import YapLang.Number.Layout
import YapLang.Text.Quoted

/-!
# Documents

A document is data of the kinds that JSON has, with integers and doubles apart. The fields of an
object keep their order.
-/
namespace YapLang

inductive Document where
  | null
  | bool (b : Bool)
  | int (n : Int)
  | double (x : Float)
  | text (s : Text)
  | list (items : List Document)
  | object (fields : List (Text × Document))
  deriving Repr, Inhabited

namespace Document

mutual

/-- A document as messages show it. -/
def inspect : Document → String
  | null => "None"
  | bool true => "True"
  | bool false => "False"
  | int n => toString n
  | double x => Layout.data.double x
  | text s => Text.quoted s
  | list items => "[" ++ String.intercalate ", " (inspectAll items) ++ "]"
  | object fields => "\x7b" ++ String.intercalate ", " (inspectFields fields) ++ "\x7d"

def inspectAll : List Document → List String
  | [] => []
  | d :: rest => inspect d :: inspectAll rest

def inspectFields : List (Text × Document) → List String
  | [] => []
  | (key, d) :: rest => (Text.quoted key ++ ": " ++ inspect d) :: inspectFields rest

end

/-- The value of a field; an absent field counts as null. -/
def field (fields : List (Text × Document)) (key : Text) : Document :=
  (fields.lookup key).getD null

/-- Sets a field: in its place if it is there, otherwise at the end. -/
def setField (fields : List (Text × Document)) (key : Text) (value : Document) :
    List (Text × Document) :=
  match fields with
  | [] => [(key, value)]
  | (k, v) :: rest => if k = key then (k, value) :: rest else (k, v) :: setField rest key value

end Document

end YapLang
