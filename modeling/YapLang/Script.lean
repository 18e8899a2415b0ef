import YapLang.Tree
import YapLang.Number.Layout
import YapLang.Text.JsonString

/-!
# A program as JavaScript text

Each statement has a line of its own, with the statements of a body two blanks further in. An
operand is put in parentheses if it binds less strongly than its place asks for. The two names of
the printing function become the one of the console; an update is written in front of its name,
because it gives the new value.
-/
namespace YapLang

/-- Why a tree has no text. Trees that come from source text have one. -/
inductive ScriptFault where
  | notAStatement (form : String)
  | notAnExpression (form : String)
  | noBody (fault : Tree.BodyFault)
  | unknownOperator (op : Text)
  | integerTooLarge
  deriving DecidableEq, Repr

namespace ScriptFault

def message : ScriptFault → String
  | notAStatement form => "unknown statement node " ++ form
  | notAnExpression form => "unknown expression node " ++ form
  | noBody (.absent form) => Tree.BodyFault.absentMessage form
  | noBody .isBlock => "'Block' object is not iterable"
  | unknownOperator op => Text.quoted op
  | integerTooLarge => "int too large to convert to float"

end ScriptFault

namespace Script

/-- How strongly an operator with two operands binds. -/
def strength? : Text → Option Nat
  | .whole "=" => some 1
  | .whole "||" => some 2
  | .whole "&&" => some 3
  | .whole "==" | .whole "===" | .whole "!=" | .whole "!==" => some 4
  | .whole "<" | .whole ">" | .whole "<=" | .whole ">=" => some 5
  | .whole "+" | .whole "-" => some 6
  | .whole "*" | .whole "/" | .whole "%" => some 7
  | _ => none

/-- The strength of an assignment, which items of a list need as well. -/
def assignmentStrength : Nat := 1

def unaryStrength : Nat := 8

/-- The strength of what needs no parentheses anywhere. -/
def memberStrength : Nat := 10

/-- The text of an expression and how strongly it binds. -/
abbrev Piece := Text × Nat

/-- The text of an expression in a place of the given strength. -/
def Piece.within (strength : Nat) (piece : Piece) : Text :=
  if piece.2 < strength then "(" ++ piece.1 ++ ")" else piece.1

def identifierText (name : Text) : Text :=
  if name = "print" ∨ name = "yapping" then "console.log" else name

/-- An integer keeps all its digits, but has to be within the range of doubles. -/
def numberText : LiteralValue → Except ScriptFault Text
  | .double x => .ok (Layout.printed.double x)
  | .int n =>
    if (Double.ofInt? n).isSome then .ok (Layout.printed.integer n) else .error .integerTooLarge

def startsWithSign (text : Text) : Bool :=
  match text.letters with
  | first :: _ => first == .char '+' || first == .char '-'
  | [] => false

/-- An operator in front of its operand. Two signs in a row are kept apart. -/
def unaryText (op operand : Text) : Text :=
  -- the operators that are found within `+-`, the empty one included
  if (["", "+", "-", "+-"] : List Text).contains op && startsWithSign operand then
    op ++ " " ++ operand
  else op ++ operand

mutual

def expression : Node → Except ScriptFault Piece
  | .number value => do return (← numberText value, memberStrength)
  | .text value =>
    .ok (Text.JsonString.encode Text.JsonString.isPlainAscii value, memberStrength)
  | .identifier name => .ok (identifierText name, memberStrength)
  | .binary op left right | .logical op left right =>
    match strength? op with
    -- whatever the operands are
    | none => .error (.unknownOperator op)
    | some strength => do
      let left ← expression left
      let right ← expression right
      return (left.within strength ++ " " ++ op ++ " " ++ right.within (strength + 1), strength)
  | .unary op operand => do
    let operand ← expression operand
    return (unaryText op (operand.within unaryStrength), unaryStrength)
  | .assignment target value => do
    let value ← expression value
    return (target ++ " = " ++ value.within assignmentStrength, assignmentStrength)
  | .update op target => .ok (op ++ target, unaryStrength)
  | .call callee args => do
    -- a fault in an argument is reported before one in the callee
    let args ← items args
    let callee ← expression callee
    return (callee.within memberStrength ++ "(" ++ Text.intercalate ", " args ++ ")",
      memberStrength)
  | .property object name => do
    let object ← expression object
    return (object.within memberStrength ++ "." ++ name, memberStrength)
  | .index object key => do
    let object ← expression object
    let key ← expression key
    return (object.within memberStrength ++ "[" ++ key.1 ++ "]", memberStrength)
  | .array elements => do
    let elements ← items elements
    return ("[" ++ Text.intercalate ", " elements ++ "]", memberStrength)
  | node => .error (.notAnExpression node.form.name)

/-- The texts of arguments or elements. -/
def items : List Node → Except ScriptFault (List Text)
  | [] => .ok []
  | node :: rest => do
    let first ← expression node
    let rest ← items rest
    return first.within assignmentStrength :: rest

end

def expressionText (node : Node) : Except ScriptFault Text := do
  return (← expression node).1

def optionalText : Option Node → Except ScriptFault Text
  | some node => expressionText node
  | none => .ok ""

def declarationText (name : Text) : Option Node → Except ScriptFault Text
  | some init => do return "let " ++ name ++ " = " ++ (← expressionText init)
  | none => .ok ("let " ++ name)

/-- What starts a loop: a declaration or an expression. -/
def initText : Option Node → Except ScriptFault Text
  | some (.declaration name init) => declarationText name init
  | init => optionalText init

def line (indent : Nat) (text : Text) : Text :=
  String.ofList (List.replicate (2 * indent) ' ') ++ text

mutual

/-- The lines of a statement. -/
def statement (indent : Nat) : Node → Except ScriptFault (List Text)
  | .statement expr => do
    let text ← expressionText expr
    return [line indent (text ++ ";")]
  | .declaration name init => do
    let text ← declarationText name init
    return [line indent (text ++ ";")]
  | .function name params body => do
    let lines ← statements (indent + 1) body
    return line indent
        ("function " ++ name ++ "(" ++ Text.intercalate ", " params ++ ") \x7b") ::
      (lines ++ [line indent "\x7d"])
  | .block body => do
    let lines ← statements (indent + 1) body
    return line indent "\x7b" :: (lines ++ [line indent "\x7d"])
  | .conditional test consequent alternate => do
    let test ← expressionText test
    let lines ← statements (indent + 1) consequent
    let more ← otherwise indent alternate
    return line indent ("if (" ++ test ++ ") \x7b") :: (lines ++ more)
  | .forLoop init test update body => do
    let init ← initText init
    let test ← optionalText test
    let update ← optionalText update
    let lines ← statements (indent + 1) body
    return line indent ("for (" ++ init ++ "; " ++ test ++ "; " ++ update ++ ") \x7b") ::
      (lines ++ [line indent "\x7d"])
  | .whileLoop test body => do
    let test ← expressionText test
    let lines ← statements (indent + 1) body
    return line indent ("while (" ++ test ++ ") \x7b") :: (lines ++ [line indent "\x7d"])
  | .returning none => .ok [line indent "return;"]
  | .returning (some argument) => do
    let text ← expressionText argument
    return [line indent ("return " ++ text ++ ";")]
  | .breakJump => .ok [line indent "break;"]
  | .continueJump => .ok [line indent "continue;"]
  | node => .error (.notAStatement node.form.name)

/-- The lines of a sequence of statements. -/
def statements (indent : Nat) : List Node → Except ScriptFault (List Text)
  | [] => .ok []
  | node :: rest => do
    let first ← statement indent node
    let rest ← statements indent rest
    return first ++ rest

/-- The lines that end a conditional statement. A conditional statement that comes next continues
it; anything else has to have statements. -/
def otherwise (indent : Nat) : Option Node → Except ScriptFault (List Text)
  | none => .ok [line indent "\x7d"]
  | some (.conditional test consequent alternate) => do
    let test ← expressionText test
    let lines ← statements (indent + 1) consequent
    let more ← otherwise indent alternate
    return line indent ("\x7d else if (" ++ test ++ ") \x7b") :: (lines ++ more)
  | some (.block body) | some (.program body) => do
    let lines ← statements (indent + 1) body
    return line indent "\x7d else \x7b" :: (lines ++ [line indent "\x7d"])
  | some node => .error (.noBody node.bodyFault)

end

/-- The text of the statements of a program. -/
def ofStatements (body : List Node) : Except ScriptFault Text := do
  let lines ← statements 0 body
  return Text.intercalate "\n" lines ++ "\n"

end Script

end YapLang
