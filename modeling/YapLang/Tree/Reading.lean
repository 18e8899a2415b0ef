import YapLang.Datum.Reading
import YapLang.Token.Scan
import YapLang.Tree

/-!
# Reading tokens as a program

The grammar is read from left to right with one token of lookahead, one function for each form. The
forms that contain themselves are read within a nesting limit, so that reading always ends; what
repeats without nesting, such as statements, arguments and operators of one level, is read in loops
that take at least one token in each round. What the text of a string token stands for is a
parameter: a text in source text, any datum in tokens made by hand.
-/
namespace YapLang

/-- Why a token list is rejected. The tokens from the one that does not fit onward tell where. -/
inductive Rejection where
  | unexpected (expected : String) (rest : List Token)
  | strayJump (jump : Token) (rest : List Token)
  | badTarget (use : TargetUse) (start rest : List Token)
  | badNumber (text : String)
  | unhashable (kind : String)
  | nestedTooDeeply
  deriving DecidableEq, Repr

/-- The place of the first of the remaining tokens; at the end, the place after the last token. -/
def Token.positionOf (tokens rest : List Token) : Position :=
  match rest.head? with
  | some t => t.position
  | none =>
    match tokens.getLast? with
    | some last => last.endPosition
    | none => Position.start

/-- The error that a rejection of the given tokens is reported as. -/
def Rejection.toError (tokens : List Token) : Rejection → SourceError
  | unexpected expected rest => .unexpected expected rest.head? (Token.positionOf tokens rest)
  | strayJump jump _ => .strayJump jump
  | badTarget use start _ => .badTarget use (Token.positionOf tokens start)
  | badNumber text => .badNumber text
  | unhashable kind => .unhashable kind
  | nestedTooDeeply => .nestedTooDeeply

/-- A step of reading: it takes tokens off the front of the list, or rejects it. -/
abbrev Reading := StateT (List Token) (Except Rejection)

namespace Reading

/-- Rejects the next token. -/
def reject {α : Type} (expected : String) : Reading α :=
  fun rest => .error (.unexpected expected rest)

/-- Whether the next token is the given mark. -/
def sees (text : String) : Reading Bool :=
  fun rest => .ok (rest.head?.any (Token.isMark text), rest)

/-- Takes the next token if it is the given mark, and says whether it was. -/
def accept (text : String) : Reading Bool
  | [] => .ok (false, [])
  | t :: rest => if t.isMark text then .ok (true, rest) else .ok (false, t :: rest)

/-- Takes the given mark. -/
def expect (text : String) : Reading Unit := do
  unless ← accept text do reject (Text.quoted text)

/-- Takes an identifier. -/
def identifier : Reading Text
  | [] => .error (.unexpected Token.Kind.identifier.name [])
  | t :: rest =>
    if t.kind = .identifier then .ok (t.text, rest)
    else .error (.unexpected Token.Kind.identifier.name (t :: rest))

/-- Takes the next token if it is one of the given operators. -/
def operator? (texts : List String) : Reading (Option Text)
  | [] => .ok (none, [])
  | t :: rest =>
    if t.isOperator texts then .ok (some t.text, rest) else .ok (none, t :: rest)

/-! ### Lists -/

/-- What follows the first item of a list: further items, each after a comma. -/
def moreItems {α : Type} (item : Reading α) : (fuel : Nat) → Reading (List α)
  | 0 => pure []
  | fuel + 1 => do
    if ← accept "," then
      let first ← item
      let rest ← moreItems item fuel
      return first :: rest
    else
      return []

/-- Items between commas, up to the closing mark, which is taken too. -/
def itemsUntil {α : Type} (budget : Nat) (item : Reading α) (closing : String) :
    Reading (List α) := do
  if ← accept closing then
    return []
  else
    let first ← item
    let rest ← moreItems item budget
    expect closing
    return first :: rest

variable {τ : Type}

/-! ### Operators -/

/-- Joins two operands if the token is an operator of a level. -/
abbrev Level (τ : Type) := Token → Option (Tree τ → Tree τ → Tree τ)

def logicalLevel (op : String) : Level τ := fun t =>
  if t.isMark op then some (.logical op) else none

def binaryLevel (ops : List String) : Level τ := fun t =>
  if t.isOperator ops then some (.binary t.text) else none

/-- The levels of operators with two operands, loosest first. -/
def levels : List (Level τ) :=
  [ logicalLevel "||",
    logicalLevel "&&",
    binaryLevel ["==", "===", "!=", "!=="],
    binaryLevel ["<", ">", "<=", ">="],
    binaryLevel ["+", "-"],
    binaryLevel ["*", "/", "%"] ]

/-- Reads further operands of a level, joining them from the left. -/
def moreOperands (level : Level τ) (operand : Reading (Tree τ)) :
    (fuel : Nat) → Tree τ → Reading (Tree τ)
  | 0, left => pure left
  | fuel + 1, left => do
    match ← get with
    | [] => return left
    | t :: rest =>
      match level t with
      | none => return left
      | some join =>
        set rest
        let right ← operand
        moreOperands level operand fuel (join left right)

def levelOf (budget : Nat) (level : Level τ) (operand : Reading (Tree τ)) : Reading (Tree τ) := do
  let first ← operand
  moreOperands level operand budget first

/-- Operands joined by operators of all levels. -/
def operators (budget : Nat) (operand : Reading (Tree τ)) : Reading (Tree τ) :=
  levels.foldr (levelOf budget) operand

/-! ### Expressions -/

variable (literal : String → Except Datum.Fault τ)

/-- A number, a text, a name, a list, or an expression in parentheses. -/
def primary (budget : Nat) (expression : Reading (Tree τ)) : Reading (Tree τ) := do
  match ← get with
  | [] => reject "expression"
  | t :: rest =>
    match t.kind with
    | .number =>
      match Text.tokenNumber? t.text with
      | some x => set rest; return .number (.double x)
      | none => throw (.badNumber t.text)
    | .string =>
      match literal t.text with
      | .ok value => set rest; return .text value
      | .error .malformed => reject "valid string literal"
      | .error (.unhashable kind) => throw (.unhashable kind)
    | .identifier => set rest; return .identifier t.text
    | _ =>
      if t.isMark "(" then
        set rest
        let inner ← expression
        expect ")"
        return inner
      else if t.isMark "[" then
        set rest
        let elements ← itemsUntil budget expression "]"
        return .array elements
      else
        reject "expression"

/-- Calls, properties and indices that follow an expression. -/
def suffixes (budget : Nat) (expression : Reading (Tree τ)) :
    (fuel : Nat) → Tree τ → Reading (Tree τ)
  | 0, node => pure node
  | fuel + 1, node => do
    if ← accept "(" then
      let args ← itemsUntil budget expression ")"
      suffixes budget expression fuel (.call node args)
    else if ← accept "." then
      let name ← identifier
      suffixes budget expression fuel (.property node name)
    else if ← accept "[" then
      let key ← expression
      expect "]"
      suffixes budget expression fuel (.index node key)
    else
      return node

/-- An update may follow a name. -/
def updated (operand : Reading (Tree τ)) : Reading (Tree τ) := do
  let start ← get
  let node ← operand
  match ← get with
  | [] => return node
  | t :: rest =>
    if t.isOperator ["++", "--"] then
      match node with
      | .identifier name => set rest; return .update t.text name
      | _ => throw (.badTarget .update start (t :: rest))
    else
      return node

mutual

/-- An expression: operands and operators, or the assignment of an expression to a name. -/
def expression (budget : Nat) : (depth : Nat) → Reading (Tree τ)
  | 0 => throw .nestedTooDeeply
  | depth + 1 => do
    let start ← get
    let left ← operators budget (prefixed budget depth)
    if ← sees "=" then
      match left with
      | .identifier name =>
        expect "="
        let value ← expression budget depth
        return .assignment name value
      -- the place is that of the target, the token is the one behind it
      | _ => throw (.badTarget .assignment start (← get))
    else
      return left

/-- An operand with the operators in front of it. -/
def prefixed (budget : Nat) : (depth : Nat) → Reading (Tree τ)
  | 0 => throw .nestedTooDeeply
  | depth + 1 => do
    match ← operator? ["!", "-", "+"] with
    | some op =>
      let operand ← prefixed budget depth
      return .unary op operand
    | none => updated (chain budget depth)

/-- A primary expression with its suffixes. After the call marker the last suffix must be a call;
the marker itself leaves no trace. -/
def chain (budget : Nat) : (depth : Nat) → Reading (Tree τ)
  | 0 => throw .nestedTooDeeply
  | depth + 1 => do
    if ← accept Lexeme.callKeyword then
      match ← chain budget depth with
      | .call callee args => return .call callee args
      -- the token behind the chain is the one that does not fit
      | _ => reject (Text.quoted "(")
    else
      let first ← primary literal budget (expression budget depth)
      suffixes budget (expression budget depth) budget first

end

/-! ### Statements -/

/-- Statements up to the end of their block. -/
def statementsUntil (statement : Reading (Tree τ)) :
    (fuel : Nat) → List (Tree τ) → Reading (List (Tree τ))
  | 0, _ => reject (Text.quoted "\x7d")
  | fuel + 1, before => do
    if ← accept "\x7d" then
      return before.reverse
    else if (← get).isEmpty then
      reject (Text.quoted "\x7d")
    else if ← accept ";" then
      statementsUntil statement fuel before
    else
      let next ← statement
      statementsUntil statement fuel (next :: before)

/-- Statements in braces. -/
def block (budget : Nat) (statement : Reading (Tree τ)) : Reading (List (Tree τ)) := do
  expect "\x7b"
  statementsUntil statement budget []

/-- The declaration of a variable, without the mark that ends it. -/
def declaration (expression : Reading (Tree τ)) : Reading (Tree τ) := do
  expect "let"
  let name ← identifier
  if ← accept "=" then
    let init ← expression
    return .declaration name (some init)
  else
    return .declaration name none

def function (budget : Nat) (body : Reading (List (Tree τ))) : Reading (Tree τ) := do
  expect "function"
  let name ← identifier
  expect "("
  let params ← itemsUntil budget identifier ")"
  let body ← body
  return .function name params body

/-- An expression, unless the mark that stands for its absence comes first. -/
def optionalUnless (mark : String) (expression : Reading (Tree τ)) :
    Reading (Option (Tree τ)) := do
  if ← sees mark then return none else return some (← expression)

def forLoop (expression : Reading (Tree τ)) (body : Reading (List (Tree τ))) :
    Reading (Tree τ) := do
  expect "for"
  expect "("
  let init ← if ← sees "let" then some <$> declaration expression
    else optionalUnless ";" expression
  expect ";"
  let test ← optionalUnless ";" expression
  expect ";"
  let update ← optionalUnless ")" expression
  expect ")"
  let body ← body
  return .forLoop init test update body

def whileLoop (expression : Reading (Tree τ)) (body : Reading (List (Tree τ))) :
    Reading (Tree τ) := do
  expect "while"
  expect "("
  let test ← expression
  expect ")"
  let body ← body
  return .whileLoop test body

def returning (expression : Reading (Tree τ)) : Reading (Tree τ) := do
  expect "return"
  let argument ← optionalUnless ";" expression
  expect ";"
  return .returning argument

/-- A jump, which must be inside a loop. -/
def jump (inLoop : Bool) (node : Tree τ) : Reading (Tree τ)
  | [] => .error (.unexpected "statement" [])
  | t :: rest =>
    if inLoop then (do expect ";"; return node : Reading (Tree τ)) rest
    else .error (.strayJump t (t :: rest))

/-- An expression as a statement. -/
def expressionStatement (expression : Reading (Tree τ)) : Reading (Tree τ) := do
  let expr ← expression
  expect ";"
  return .statement expr

mutual

/-- A statement. Jumps are allowed inside a loop, but the body of a function is not inside the loops
around the function. -/
def statement (budget : Nat) : (depth : Nat) → (inLoop : Bool) → Reading (Tree τ)
  | 0, _ => throw .nestedTooDeeply
  | depth + 1, inLoop => do
    let expression := expression literal budget depth
    match ← get with
    | [] => reject "statement"
    | t :: _ =>
      if t.kind = .keyword ∧ t.text ≠ Lexeme.callKeyword then
        match t.text with
        | "function" => function budget (block budget (statement budget depth false))
        | "let" => do
          let node ← declaration expression
          expect ";"
          return node
        | "if" => conditional budget depth inLoop
        | "for" => forLoop expression (block budget (statement budget depth true))
        | "while" => whileLoop expression (block budget (statement budget depth true))
        | "return" => returning expression
        | "break" => jump inLoop .breakJump
        | "continue" => jump inLoop .continueJump
        | _ => reject "statement"
      else if t.isMark "\x7b" then
        return .block (← block budget (statement budget depth inLoop))
      else
        expressionStatement expression

/-- A conditional statement; after `else` comes a block or another conditional statement. -/
def conditional (budget : Nat) : (depth : Nat) → (inLoop : Bool) → Reading (Tree τ)
  | 0, _ => throw .nestedTooDeeply
  | depth + 1, inLoop => do
    expect "if"
    expect "("
    let test ← expression literal budget depth
    expect ")"
    let body := block budget (statement budget depth inLoop)
    let consequent ← body
    if ← accept "else" then
      if ← sees "if" then
        let alternate ← conditional budget depth inLoop
        return .conditional test consequent (some alternate)
      else
        let alternate ← body
        return .conditional test consequent (some (.block alternate))
    else
      return .conditional test consequent none

end

/-- Statements up to the end of input. -/
def statementsToEnd (statement : Reading (Tree τ)) :
    (fuel : Nat) → List (Tree τ) → Reading (List (Tree τ))
  | 0, before => return before.reverse
  | fuel + 1, before => do
    if (← get).isEmpty then
      return before.reverse
    else if ← accept ";" then
      statementsToEnd statement fuel before
    else
      let next ← statement
      statementsToEnd statement fuel (next :: before)

/-- A program. The number of tokens bounds the rounds of every loop. -/
def program (limit : Nat) (tokens : List Token) : Except Rejection (Tree τ) :=
  let statement := statement literal tokens.length limit false
  match (statementsToEnd statement (tokens.length + 1) []).run tokens with
  | .ok (body, _) => .ok (.program body)
  | .error rejection => .error rejection

end Reading

/-- How deep the forms of a program that is read may be nested. -/
def Tree.nestingLimit : Nat := 3000

/-- Reads tokens as a program, given what the texts of string tokens stand for. -/
def Tree.ofTokens {τ : Type} (literal : String → Except Datum.Fault τ) (tokens : List Token) :
    Except SourceError (Tree τ) :=
  match Reading.program literal Tree.nestingLimit tokens with
  | .ok tree => .ok tree
  | .error rejection => .error (rejection.toError tokens)

namespace Node

variable [CharacterNames]

/-- What the text of a string token of source text stands for. -/
def literal (s : String) : Except Datum.Fault Text :=
  match Text.literalValue? s with
  | some value => .ok value
  | none => .error .malformed

/-- Reads tokens of source text as a program. -/
def ofTokens (tokens : List Token) : Except SourceError Node :=
  Tree.ofTokens literal tokens

/-- Reads source text as a program. -/
def ofSource (source : String) : Except SourceError Node := do
  ofTokens (← Token.scan source)

end Node

end YapLang
