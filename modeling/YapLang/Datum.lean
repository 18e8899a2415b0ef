import YapLang.Document

/-!
# Data

The scanner makes string tokens of quoted text only, but a token made by hand may hold any literal
of a data notation: numbers, texts, and collections of data. A datum is what such a literal denotes.
Some kinds of data have no document. Of those but tuples no part can be seen, so none is kept.
-/
namespace YapLang

inductive Datum where
  | null
  | bool (b : Bool)
  | int (n : Int)
  | double (x : Float)
  | text (s : Text)
  | list (items : List Datum)
  | tuple (items : List Datum)
  | bytes
  | complex
  | ellipsis
  | set
  | dict
  deriving Repr, Inhabited

namespace Datum

/-- The name of the kind of a datum, as messages give it. -/
def kindName : Datum → String
  | null => "NoneType"
  | bool _ => "bool"
  | int _ => "int"
  | double _ => "float"
  | text _ => "str"
  | list _ => "list"
  | tuple _ => "tuple"
  | bytes => "bytes"
  | complex => "complex"
  | ellipsis => "ellipsis"
  | set => "set"
  | dict => "dict"

/-- Why a literal denotes no datum. -/
inductive Fault where
  | malformed
  /-- A datum of this kind cannot be a member of a set or a key of a dictionary. -/
  | unhashable (kind : String)
  deriving DecidableEq, Repr

/-! ### Members and keys -/

mutual

/-- The first part of a datum that keeps it from being a member of a set or a key: a collection that
is not a tuple. -/
def obstacle? : Datum → Option Datum
  | list items => some (list items)
  | set => some set
  | dict => some dict
  | tuple items => firstObstacle? items
  | _ => none

def firstObstacle? : List Datum → Option Datum
  | [] => none
  | d :: rest => (obstacle? d).orElse fun _ => firstObstacle? rest

end

/-- Checks that a datum can be a member of a set or a key. -/
def checkKey (d : Datum) : Except Fault Unit :=
  match obstacle? d with
  | some part => .error (.unhashable part.kindName)
  | none => .ok ()

/-- The list of the data that literals denote; the first one without a datum decides. -/
def listOf (items : List (Except Fault Datum)) : Except Fault Datum :=
  (items.mapM id).map list

def tupleOf (items : List (Except Fault Datum)) : Except Fault Datum :=
  (items.mapM id).map tuple

/-- The set of the data that literals denote. Each is checked before the next one is looked at. -/
def setOf : List (Except Fault Datum) → Except Fault Datum
  | [] => .ok set
  | item :: rest => do
    checkKey (← item)
    setOf rest

/-- The dictionary of entries. The value of an entry is looked at before its key is checked. -/
def dictOf : List (Except Fault Datum × Except Fault Datum) → Except Fault Datum
  | [] => .ok dict
  | (key, value) :: rest => do
    let key ← key
    let _ ← value
    checkKey key
    dictOf rest

/-! ### Documents -/

/-- The kind of a datum that has no document. -/
structure NoDocument where
  kind : String
  deriving DecidableEq, Repr

def NoDocument.message (e : NoDocument) : String :=
  "cannot serialize " ++ e.kind

mutual

/-- The document of a datum. -/
def toDocument : Datum → Except NoDocument Document
  | null => .ok .null
  | bool b => .ok (.bool b)
  | int n => .ok (.int n)
  | double x => .ok (.double x)
  | text s => .ok (.text s)
  | list items => (documents items).map .list
  | d => .error ⟨d.kindName⟩

def documents : List Datum → Except NoDocument (List Document)
  | [] => .ok []
  | d :: rest => do
    let first ← toDocument d
    let rest ← documents rest
    return first :: rest

end

end Datum

end YapLang
