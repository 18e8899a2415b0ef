import YapLang.Text

/-!
# Program trees

A tree is a statement or an expression. Source text gives trees in which each stands where it
belongs, but a tree can also be loaded from a document, where statements and expressions may be
anywhere and operators may be any text; so there is one type for both. What no document can misplace
is part of the type: bodies are statement lists, targets of assignments are names, and so is the
property after a dot. What a text literal holds is a parameter, as tokens made by hand can hold
more than texts.
-/
namespace YapLang

/-- The value of a number literal. Source text gives doubles; a document can hold an integer of any
size. -/
inductive LiteralValue where
  | int (n : Int)
  | double (x : Float)
  deriving DecidableEq, Repr

inductive Tree (τ : Type) where
  | program (body : List (Tree τ))
  | block (body : List (Tree τ))
  | function (name : Text) (params : List Text) (body : List (Tree τ))
  | declaration (name : Text) (init : Option (Tree τ))
  | conditional (test : Tree τ) (consequent : List (Tree τ)) (alternate : Option (Tree τ))
  | forLoop (init test update : Option (Tree τ)) (body : List (Tree τ))
  | whileLoop (test : Tree τ) (body : List (Tree τ))
  | breakJump
  | continueJump
  | returning (argument : Option (Tree τ))
  | statement (expr : Tree τ)
  | number (value : LiteralValue)
  | text (value : τ)
  | identifier (name : Text)
  | binary (op : Text) (left right : Tree τ)
  | logical (op : Text) (left right : Tree τ)
  | unary (op : Text) (operand : Tree τ)
  | assignment (target : Text) (value : Tree τ)
  | update (op : Text) (target : Text)
  | call (callee : Tree τ) (args : List (Tree τ))
  | property (object : Tree τ) (name : Text)
  | index (object key : Tree τ)
  | array (elements : List (Tree τ))
  deriving Repr, Inhabited

/-- A tree of source text: its text literals are texts. -/
abbrev Node := Tree Text

namespace Tree

variable {τ : Type}

/-- The forms of trees. -/
inductive Form where
  | program
  | block
  | function
  | declaration
  | conditional
  | forLoop
  | whileLoop
  | breakJump
  | continueJump
  | returning
  | statement
  | number
  | text
  | identifier
  | binary
  | logical
  | unary
  | assignment
  | update
  | call
  | member
  | array
  deriving DecidableEq, Repr

/-- The name of a form, as documents and messages give it. -/
def Form.name : Form → String
  | program => "Program"
  | block => "Block"
  | function => "FunctionDeclaration"
  | declaration => "VariableDeclaration"
  | conditional => "If"
  | forLoop => "For"
  | whileLoop => "While"
  | breakJump => "Break"
  | continueJump => "Continue"
  | returning => "Return"
  | statement => "ExpressionStatement"
  | number => "Literal"
  | text => "StringLiteral"
  | identifier => "Identifier"
  | binary => "Binary"
  | logical => "Logical"
  | unary => "Unary"
  | assignment => "Assignment"
  | update => "Update"
  | call => "Call"
  | member => "Member"
  | array => "Array"

def form : Tree τ → Form
  | program _ => .program
  | block _ => .block
  | function .. => .function
  | declaration .. => .declaration
  | conditional .. => .conditional
  | forLoop .. => .forLoop
  | whileLoop .. => .whileLoop
  | breakJump => .breakJump
  | continueJump => .continueJump
  | returning _ => .returning
  | statement _ => .statement
  | number _ => .number
  | text _ => .text
  | identifier _ => .identifier
  | binary .. => .binary
  | logical .. => .logical
  | unary .. => .unary
  | assignment .. => .assignment
  | update .. => .update
  | call .. => .call
  | property .. | index .. => .member
  | array _ => .array

/-- A short name of an expression, close to its source, for messages about calls. -/
def describe : Tree τ → Text
  | identifier name => name
  | index object _ => object.describe ++ "[...]"
  | property object name => object.describe ++ "." ++ name
  | call callee _ => callee.describe ++ "(...)"
  | node => node.form.name.map Char.toLower

/-- Why a tree is not a list of statements. -/
inductive BodyFault where
  /-- A form without a body. -/
  | absent (form : String)
  /-- A form whose body is a block of its own. -/
  | isBlock
  deriving DecidableEq, Repr

/-- What keeps a tree that is neither a program nor a block from being a list of statements. -/
def bodyFault : Tree τ → BodyFault
  | function .. | forLoop .. | whileLoop .. => .isBlock
  | node => .absent node.form.name

/-- The statements of a program or a block. -/
def statements : Tree τ → Except BodyFault (List (Tree τ))
  | program body | block body => .ok body
  | node => .error node.bodyFault

def BodyFault.absentMessage (form : String) : String :=
  "'" ++ form ++ "' object has no attribute 'body'"

section

variable {σ ε : Type} (f : τ → Except ε σ)

mutual

/-- Replaces what the text literals hold, in the order of the parts; the first failure decides. -/
def mapLiterals : Tree τ → Except ε (Tree σ)
  | program body => return .program (← mapEach body)
  | block body => return .block (← mapEach body)
  | function name params body => return .function name params (← mapEach body)
  | declaration name init => return .declaration name (← mapOptional init)
  | conditional test consequent alternate =>
    return .conditional (← mapLiterals test) (← mapEach consequent) (← mapOptional alternate)
  | forLoop init test step body =>
    return .forLoop (← mapOptional init) (← mapOptional test) (← mapOptional step)
      (← mapEach body)
  | whileLoop test body => return .whileLoop (← mapLiterals test) (← mapEach body)
  | breakJump => return .breakJump
  | continueJump => return .continueJump
  | returning argument => return .returning (← mapOptional argument)
  | statement expr => return .statement (← mapLiterals expr)
  | number value => return .number value
  | text value => return .text (← f value)
  | identifier name => return .identifier name
  | binary op left right => return .binary op (← mapLiterals left) (← mapLiterals right)
  | logical op left right => return .logical op (← mapLiterals left) (← mapLiterals right)
  | unary op operand => return .unary op (← mapLiterals operand)
  | assignment target value => return .assignment target (← mapLiterals value)
  | update op target => return .update op target
  | call callee args => return .call (← mapLiterals callee) (← mapEach args)
  | property object name => return .property (← mapLiterals object) name
  | index object key => return .index (← mapLiterals object) (← mapLiterals key)
  | array elements => return .array (← mapEach elements)

def mapEach : List (Tree τ) → Except ε (List (Tree σ))
  | [] => return []
  | tree :: rest => return (← mapLiterals tree) :: (← mapEach rest)

def mapOptional : Option (Tree τ) → Except ε (Option (Tree σ))
  | none => return none
  | some tree => return some (← mapLiterals tree)

end

end

end Tree

end YapLang
