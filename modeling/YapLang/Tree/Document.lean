import YapLang.Datum
import YapLang.Document
import YapLang.Tree

/-!
# Program trees as documents

A tree is written as an object that names its form and has one field for each part; parts that are
absent are null. Reading checks every field against its form, in the order of the fields, and
ignores what else an object holds. A document need not be one tree: lists and plain values are read
as what they are.
-/
namespace YapLang

/-! ### Writing -/

namespace Tree

def numberDocument : LiteralValue → Document
  | .int n => .int n
  | .double x => .double x

/-- An object that names a form. -/
def formDocument (form : Form) (fields : List (Text × Document)) : Document :=
  .object (("type", .text form.name) :: fields)

def identifierDocument (name : Text) : Document :=
  formDocument .identifier [("name", .text name)]

variable {τ : Type} (literal : τ → Document)

mutual

/-- The document of a tree whose text literals have the given documents. -/
def document : Tree τ → Document
  | program body => formDocument .program [("body", .list (documents body))]
  | block body => formDocument .block [("body", .list (documents body))]
  | function name params body =>
    formDocument .function
      [("name", .text name), ("params", .list (params.map .text)), ("body", blockDocument body)]
  | declaration name init =>
    formDocument .declaration [("name", .text name), ("init", optionalDocument init)]
  | conditional test consequent alternate =>
    formDocument .conditional
      [("test", document test), ("consequent", blockDocument consequent),
        ("alternate", optionalDocument alternate)]
  | forLoop init test step body =>
    formDocument .forLoop
      [("init", optionalDocument init), ("test", optionalDocument test),
        ("update", optionalDocument step), ("body", blockDocument body)]
  | whileLoop test body =>
    formDocument .whileLoop [("test", document test), ("body", blockDocument body)]
  | breakJump => formDocument .breakJump []
  | continueJump => formDocument .continueJump []
  | returning argument => formDocument .returning [("argument", optionalDocument argument)]
  | statement expr => formDocument .statement [("expr", document expr)]
  | number value => formDocument .number [("value", numberDocument value)]
  | text value => formDocument .text [("value", literal value)]
  | identifier name => identifierDocument name
  | binary op left right =>
    formDocument .binary
      [("op", .text op), ("left", document left), ("right", document right)]
  | logical op left right =>
    formDocument .logical
      [("op", .text op), ("left", document left), ("right", document right)]
  | unary op operand =>
    formDocument .unary [("op", .text op), ("operand", document operand)]
  | assignment target value =>
    formDocument .assignment
      [("target", identifierDocument target), ("value", document value)]
  | update op target =>
    formDocument .update [("op", .text op), ("target", identifierDocument target)]
  | call callee args =>
    formDocument .call [("callee", document callee), ("args", .list (documents args))]
  | property object name =>
    formDocument .member
      [("object", document object), ("property", identifierDocument name),
        ("computed", .bool false)]
  | index object key =>
    formDocument .member
      [("object", document object), ("property", document key), ("computed", .bool true)]
  | array elements => formDocument .array [("elements", .list (documents elements))]

def documents : List (Tree τ) → List Document
  | [] => []
  | node :: rest => document node :: documents rest

def optionalDocument : Option (Tree τ) → Document
  | none => .null
  | some node => document node

def blockDocument (body : List (Tree τ)) : Document :=
  formDocument .block [("body", .list (documents body))]

end

end Tree

/-- The document of a tree of source text. -/
def Node.toDocument (node : Node) : Document :=
  Tree.document .text node

/-- The document of a tree with data for its text literals, if they all have one. -/
def Tree.dataDocument (tree : Tree Datum) : Except Datum.NoDocument Document :=
  (tree.mapLiterals Datum.toDocument).map (Tree.document id)

/-! ### Reading -/

/-- What a document is read as. -/
inductive Loaded where
  | null
  | bool (b : Bool)
  | int (n : Int)
  | double (x : Float)
  | text (s : Text)
  | list (items : List Loaded)
  | node (tree : Node)
  deriving Repr, Inhabited

namespace Loaded

mutual

/-- The document of what a document was read as. -/
def toDocument : Loaded → Document
  | null => .null
  | bool b => .bool b
  | int n => .int n
  | double x => .double x
  | text s => .text s
  | list items => .list (documents items)
  | node tree => Node.toDocument tree

def documents : List Loaded → List Document
  | [] => []
  | item :: rest => item.toDocument :: documents rest

end

/-! What a field has to hold. -/

def text? : Loaded → Option Text
  | text s => some s
  | _ => none

def number? : Loaded → Option LiteralValue
  | int n => some (.int n)
  | double x => some (.double x)
  | _ => none

def bool? : Loaded → Option Bool
  | bool b => some b
  | _ => none

def node? : Loaded → Option Node
  | node tree => some tree
  | _ => none

/-- The statements of a block. -/
def block? : Loaded → Option (List Node)
  | node (.block body) => some body
  | _ => none

/-- The name that an identifier is. -/
def identifier? : Loaded → Option Text
  | node (.identifier name) => some name
  | _ => none

def optional? : Loaded → Option (Option Node)
  | null => some none
  | node tree => some (some tree)
  | _ => none

def texts? : Loaded → Option (List Text)
  | list items => items.mapM text?
  | _ => none

def nodes? : Loaded → Option (List Node)
  | list items => items.mapM node?
  | _ => none

end Loaded

/-- Why a document cannot be read. -/
inductive LoadError where
  /-- The value that should name a form does not. -/
  | unknownForm (form : Document)
  /-- A list or an object stands where a form should be named. -/
  | compoundForm (form : Document)
  /-- A field that does not hold what its form asks for. -/
  | badField (field form : String) (value : Document)
  /-- A property after a dot that is not a name. -/
  | unnamedProperty
  deriving Repr

namespace LoadError

def message : LoadError → String
  | unknownForm form => "unknown AST node type " ++ form.inspect
  | compoundForm (.list _) => "unhashable type: 'list'"
  | compoundForm _ => "unhashable type: 'dict'"
  | badField field form value =>
    "bad " ++ Text.quoted field ++ " field in " ++ form ++ " node: " ++ value.inspect
  | unnamedProperty => "non-computed Member property must be an Identifier"

end LoadError

namespace Loaded

/-- The fields of an object: what they hold, and what that is read as. -/
abbrev Fields := List (Text × Document × Except LoadError Loaded)

/-- A field that has to hold something of a kind. An absent field counts as null. -/
def require {α : Type} (form : String) (fields : Fields) (name : String)
    (kind? : Loaded → Option α) : Except LoadError α :=
  -- what is wrong inside a field is reported before what it should hold
  let (document, loaded) := (fields.lookup (name : Text)).getD (.null, .ok .null)
  match loaded with
  | .error e => .error e
  | .ok value =>
    match kind? value with
    | some a => .ok a
    | none => .error (.badField name form document)

end Loaded

/-- What a field can be asked to hold. -/
inductive Kind where
  | text
  | number
  | truth
  | texts
  | nodes
  | block
  | identifier
  | node
  /-- A node, or null where there is none. -/
  | optional
  deriving DecidableEq, Repr

namespace Kind

/-- What is read from a field of a kind. -/
abbrev Part : Kind → Type
  | text | identifier => Text
  | number => LiteralValue
  | truth => Bool
  | texts => List Text
  | nodes | block => List Node
  | node => Node
  | optional => Option Node

open Loaded in
/-- The part that a value is, if it is of the kind. -/
def part? : (kind : Kind) → Loaded → Option kind.Part
  | text => text?
  | number => number?
  | truth => bool?
  | texts => texts?
  | nodes => nodes?
  | block => block?
  | identifier => identifier?
  | node => node?
  | optional => optional?

/-- What is read from fields one after the other. -/
def Parts : List (String × Kind) → Type
  | [] => Unit
  | (_, kind) :: rest => kind.Part × Parts rest

end Kind

namespace Tree.Form

def all : List Form :=
  [ program, block, function, declaration, conditional, forLoop, whileLoop, breakJump, continueJump,
    returning, statement, number, text, identifier, binary, logical, unary, assignment, update,
    call, member, array ]

/-- The form that a name is of. -/
def ofName? (name : String) : Option Form :=
  all.find? fun form => form.name == name

/-- The fields of each form, in order, with what they hold. -/
def declared : Form → List (String × Kind)
  | program => [("body", .nodes)]
  | block => [("body", .nodes)]
  | function => [("name", .text), ("params", .texts), ("body", .block)]
  | declaration => [("name", .text), ("init", .optional)]
  | conditional => [("test", .node), ("consequent", .block), ("alternate", .optional)]
  | forLoop =>
    [("init", .optional), ("test", .optional), ("update", .optional), ("body", .block)]
  | whileLoop => [("test", .node), ("body", .block)]
  | breakJump => []
  | continueJump => []
  | returning => [("argument", .optional)]
  | statement => [("expr", .node)]
  | number => [("value", .number)]
  | text => [("value", .text)]
  | identifier => [("name", .text)]
  | binary => [("op", .text), ("left", .node), ("right", .node)]
  | logical => [("op", .text), ("left", .node), ("right", .node)]
  | unary => [("op", .text), ("operand", .node)]
  | assignment => [("target", .identifier), ("value", .node)]
  | update => [("op", .text), ("target", .identifier)]
  | call => [("callee", .node), ("args", .nodes)]
  | member => [("object", .node), ("property", .node), ("computed", .truth)]
  | array => [("elements", .nodes)]

/-- The tree of a form with the given parts. The property after a dot has to be a name. -/
def build : (form : Form) → Kind.Parts form.declared → Except LoadError Node
  | program, (body, ()) => .ok (.program body)
  | block, (body, ()) => .ok (.block body)
  | function, (name, params, body, ()) => .ok (.function name params body)
  | declaration, (name, init, ()) => .ok (.declaration name init)
  | conditional, (test, consequent, alternate, ()) => .ok (.conditional test consequent alternate)
  | forLoop, (init, test, step, body, ()) => .ok (.forLoop init test step body)
  | whileLoop, (test, body, ()) => .ok (.whileLoop test body)
  | breakJump, () => .ok .breakJump
  | continueJump, () => .ok .continueJump
  | returning, (argument, ()) => .ok (.returning argument)
  | statement, (expr, ()) => .ok (.statement expr)
  | number, (value, ()) => .ok (.number value)
  | text, (value, ()) => .ok (.text value)
  | identifier, (name, ()) => .ok (.identifier name)
  | binary, (op, left, right, ()) => .ok (.binary op left right)
  | logical, (op, left, right, ()) => .ok (.logical op left right)
  | unary, (op, operand, ()) => .ok (.unary op operand)
  | assignment, (target, value, ()) => .ok (.assignment target value)
  | update, (op, target, ()) => .ok (.update op target)
  | call, (callee, args, ()) => .ok (.call callee args)
  -- in brackets stands any node, after a dot a name
  | member, (object, key, true, ()) => .ok (.index object key)
  | member, (object, .identifier name, false, ()) => .ok (.property object name)
  | member, (_, _, false, ()) => .error .unnamedProperty
  | array, (elements, ()) => .ok (.array elements)

end Tree.Form

namespace Loaded

/-- Reads fields one after the other. -/
def parts (form : String) (fields : Fields) :
    (declared : List (String × Kind)) → Except LoadError (Kind.Parts declared)
  | [] => .ok ()
  | (name, kind) :: rest => do
    let part ← require form fields name kind.part?
    let others ← parts form fields rest
    return (part, others)

/-- Reads the fields of a form. -/
def assemble (form : Tree.Form) (fields : Fields) : Except LoadError Node := do
  form.build (← parts form.name fields form.declared)

/-- Reads an object: first its form, then the fields of the form. -/
def ofObject (form : Document) (fields : Fields) : Except LoadError Node :=
  match form with
  -- a text with halves names no form
  | .text (.whole name) =>
    match Tree.Form.ofName? name with
    | some form => assemble form fields
    | none => .error (.unknownForm form)
  | .list _ | .object _ => .error (.compoundForm form)
  | _ => .error (.unknownForm form)

/-- The statements of what was read, if it is a program or a block. -/
def statements : Loaded → Except Tree.BodyFault (List Node)
  | node tree => tree.statements
  | null => .error (.absent "NoneType")
  | bool _ => .error (.absent "bool")
  | int _ => .error (.absent "int")
  | double _ => .error (.absent "float")
  | text _ => .error (.absent "str")
  | list _ => .error (.absent "list")

mutual

/-- Reads a document. -/
def ofDocument : Document → Except LoadError Loaded
  | .null => .ok .null
  | .bool b => .ok (.bool b)
  | .int n => .ok (.int n)
  | .double x => .ok (.double x)
  | .text s => .ok (.text s)
  | .list items => (ofItems items).map .list
  | .object fields => (ofObject (Document.field fields "type") (ofFields fields)).map .node

def ofItems : List Document → Except LoadError (List Loaded)
  | [] => .ok []
  | d :: rest => do
    let first ← ofDocument d
    let rest ← ofItems rest
    return first :: rest

def ofFields : List (Text × Document) → Fields
  | [] => []
  | (key, d) :: rest => (key, d, ofDocument d) :: ofFields rest

end

end Loaded

end YapLang
