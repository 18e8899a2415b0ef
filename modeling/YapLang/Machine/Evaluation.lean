import YapLang.Machine
import YapLang.Value.Math

/-!
# Running a program

A statement gives a signal: it went on normally, or a jump or a return is under way. Loops take up
jumps, calls take up returns. An expression gives a value. Evaluation goes at most as deep as the
given depth, which every step inward lowers by one; beyond it the stack overflows. So evaluation
always ends, apart from loops, which end when their patience does. To put together the text of a
value or the description of a callee is no step inward, however deeply these are nested.
-/
namespace YapLang

/-- How a statement ended. -/
inductive Signal where
  | normal
  | breaking
  | continuing
  | returning (value : Value)
  deriving DecidableEq, Repr

namespace Signal

def name : Signal → String
  | normal => "normal"
  | breaking => "break"
  | continuing => "continue"
  | returning _ => "return"

end Signal

namespace Run

/-! ### Members and calls of built-in functions -/

/-- The item at an index, if the index is a whole number at which there is one. -/
def itemAt {α : Type} (get? : Nat → Option α) (index : Float) : Option α :=
  match Double.toInt? index with
  | some (.ofNat i) => get? i
  | _ => none

/-- Reads a member of a value. Arrays and texts have items by number; otherwise the key counts as a
text. Whatever is not there is `undefined`. -/
def readMember (target key : Value) : Run Value := do
  let heap := (← get).heap
  match target, key with
  | .undefined, _ => fail (.propertyOfUndefined (key.toText heap))
  | .array ref, .number index => return (itemAt ((heap.items ref)[·]?) index).getD .undefined
  | .text s, .number index =>
    return ((itemAt (s.letters[·]?) index).map fun letter => .text (.ofLetters [letter])).getD
      .undefined
  | .array ref, _ =>
    -- no item is meant, so the key is a name
    let name := key.toText heap
    if name = "length" then return .number (Double.ofInt (heap.items ref).size)
    match ArrayMethod.ofName? name with
    | some method => newMethod method ref
    | none => return .undefined
  | .text s, _ =>
    return if key.toText heap = "length" then .number (Double.ofInt s.length) else .undefined
  | .mathNamespace, _ => return (MathFunction.member? (key.toText heap)).getD .undefined
  | _, _ => return .undefined

/-- The number that a value counts as. -/
def number (value : Value) : Run Float :=
  compute (value.toNumber ·)

def callBuiltin (settings : Settings) (function : Builtin) (args : List Value) : Run Value := do
  match function with
  | .print =>
    let heap := (← get).heap
    write settings (Text.intercalate " " (args.map (·.inspect heap)) ++ "\n")
    return .undefined
  | .math .random => return .number (← drawNumber)
  | .math function =>
    let xs ← args.mapM number
    return .number (function.apply xs)

/-- Appends items to an array and gives their new number. -/
def pushItems (ref : ArrayRef) (values : List Value) : Run Value := do
  changeItems ref (· ++ values.toArray)
  return .number (Double.ofInt ((← get).heap.items ref).size)

/-- Removes the last item of an array, if there is one, and gives it. -/
def popItem (ref : ArrayRef) : Run Value := do
  match ((← get).heap.items ref).back? with
  | some last =>
    changeItems ref Array.pop
    return last
  | none => return .undefined

/-- The index of the first item that is equal to a value, or minus one. -/
def indexOfItem (heap : Heap) (ref : ArrayRef) (wanted : Value) : Value :=
  match (heap.items ref).findIdx? fun item => item.strictEquals wanted with
  | some i => .number (Double.ofInt i)
  | none => .number (-1.0)

/-- The separator that an argument asks for. -/
def separatorText (heap : Heap) : Option Value → Text
  | none | some .undefined => ","
  | some value => value.toText heap

def callMethod (method : ArrayMethod) (ref : ArrayRef) (args : List Value) : Run Value := do
  match method with
  | .push => pushItems ref args
  | .pop => popItem ref
  | .join =>
    let heap := (← get).heap
    return .text (Value.joinText heap (separatorText heap args.head?) ref)
  | .indexOf =>
    let heap := (← get).heap
    return indexOfItem heap ref (args.head?.getD .undefined)

/-- Calls a built-in function or a method: the number of arguments is checked first. -/
def callNative (settings : Settings) (name : String) (arity? : Option Nat) (args : List Value)
    (body : Run Value) : Run Value := do
  match arity? with
  | some expected =>
    if args.length ≠ expected then fail (.arity name expected args.length)
  | none => pure ()
  note settings 3 fun _ => "call native " ++ name
  body

/-! ### Statements in sequence and in loops -/

/-- Runs statements until one of them does not end normally. -/
def inOrder (execute : Node → Run Signal) : List Node → Run Signal
  | [] => return .normal
  | node :: rest => do
    match ← execute node with
    | .normal => inOrder execute rest
    | signal => return signal

/-- Goes round until a round gives a result. -/
def rounds {α : Type} (round : Run (Option α)) : (patience : Nat) → Run α
  | 0 => throw .unfinished
  | patience + 1 => do
    match ← round with
    | some result => return result
    | none => rounds round patience

/-- One round of a loop. A jump out of the loop ends it, and so does a return. -/
def loopRound (test : Run Bool) (body : Run Signal) (update : Run Unit) : Run (Option Signal) := do
  if ← test then
    match ← body with
    | .breaking => return some .normal
    | .returning value => return some (.returning value)
    | _ =>
      update
      return none
  else
    return some .normal

def loop (settings : Settings) (test : Run Bool) (body : Run Signal) (update : Run Unit) :
    Run Signal :=
  rounds (loopRound test body update) settings.patience

/-- Runs statements in a new scope inside the given one. -/
def inBlock (execute : ScopeRef → Node → Run Signal) (scope : ScopeRef) (body : List Node) :
    Run Signal := do
  let inner ← openScope scope
  inOrder (execute inner) body

/-- The value that the body of a function gives; a jump must not leave the body. -/
def finishCall (name : Text) : Signal → Run Value
  | .normal => return .undefined
  | .returning value => return value
  | signal => fail (.strayJump signal.name (some name))

/-- The number after an update. -/
def updated (op : Text) (x : Float) : Except Fault Float :=
  match op with
  | .whole "++" => .ok (x + 1.0)
  | .whole "--" => .ok (x - 1.0)
  | _ => .error (.unsupportedUpdate op)

/-- The double of a literal. -/
def literal : LiteralValue → Except Fault Float
  | .double x => .ok x
  | .int n =>
    match Double.ofInt? n with
    | some x => .ok x
    | none => .error .integerTooLarge

mutual

/-- Evaluates an expression. -/
def evaluate (settings : Settings) : (depth : Nat) → ScopeRef → Node → Run Value
  | 0, _, _ => fail .stackOverflow
  | depth + 1, scope, node => do
    let eval := evaluate settings depth scope
    match node with
    | .number value => return .number (← compute fun _ => literal value)
    | .text value => return .text value
    | .identifier name => readName scope name
    | .binary op left right =>
      let a ← eval left
      let b ← eval right
      compute (Value.binary · op a b)
    | .logical op left right =>
      let a ← eval left
      match op with
      | .whole "&&" => if a.isTruthy then eval right else return a
      | .whole "||" => if a.isTruthy then return a else eval right
      -- the left operand has been evaluated all the same
      | _ => fail (.unsupportedLogical op)
    | .unary op operand =>
      let a ← eval operand
      compute (Value.unary · op a)
    | .assignment target value =>
      let a ← eval value
      assignName scope target a
    | .update op target =>
      let old ← readName scope target
      let x ← number old
      -- the old value has to be a number even if the operator is unknown
      let y ← compute fun _ => updated op x
      assignName scope target (.number y)
    | .call callee args =>
      let function ← eval callee
      let values ← args.mapM eval
      -- whether there is a function to call is asked last
      call settings depth function values callee.describe
    | .property object name =>
      let target ← eval object
      readMember target (.text name)
    | .index object key =>
      let target ← eval object
      let key ← eval key
      readMember target key
    | .array elements =>
      let items ← elements.mapM eval
      newArray items.toArray
    | node => fail (.cannotEvaluate node.form.name)

/-- Runs a statement. -/
def execute (settings : Settings) : (depth : Nat) → ScopeRef → Node → Run Signal
  | 0, _, _ => fail .stackOverflow
  | depth + 1, scope, node => do
    let eval := evaluate settings depth
    let exec := execute settings depth
    match node with
    | .statement expr =>
      let _ ← eval scope expr
      return .normal
    | .declaration name init =>
      let value ←
        match init with
        | some expr => eval scope expr
        | none => pure .undefined
      declareName scope name value
      note settings 2 fun heap => "declare " ++ name ++ " = " ++ value.toText heap
      return .normal
    | .function name params body =>
      let value ← newClosure ⟨name, params, body, scope⟩
      declareName scope name value
      note settings 2 fun _ =>
        "define function " ++ name ++ "(" ++ Text.intercalate ", " params ++ ")"
      return .normal
    | .block body => inBlock exec scope body
    | .conditional test consequent alternate =>
      let value ← eval scope test
      note settings 3 fun heap =>
        "if condition " ++ value.toText heap ++ " -> " ++ (Value.bool value.isTruthy).toText heap
      if value.isTruthy then
        inBlock exec scope consequent
      else
        match alternate with
        -- no scope of its own, unless it is a block
        | some node => exec scope node
        | none => return .normal
    | .whileLoop test body =>
      loop settings (return (← eval scope test).isTruthy) (inBlock exec scope body) (pure ())
    | .forLoop init test update body =>
      let inner ← openScope scope
      match init with
      | none => pure ()
      -- the name is declared once, in the scope around the rounds
      | some (.declaration name value) =>
        let _ ← exec inner (.declaration name value)
      | some expr =>
        let _ ← eval inner expr
      loop settings
        (match test with
          | some expr => return (← eval inner expr).isTruthy
          | none => return true)
        (inBlock exec inner body)
        (match update with
          | some expr => do let _ ← eval inner expr
          | none => pure ())
    | .returning argument =>
      match argument with
      | some expr => return .returning (← eval scope expr)
      | none => return .returning .undefined
    | .breakJump => return .breaking
    | .continueJump => return .continuing
    | node => fail (.cannotExecute node.form.name)

/-- Calls a value with arguments. The description is for the message about a value that cannot be
called. The body of a user function runs in a new scope inside the one of its declaration. -/
def call (settings : Settings) : (depth : Nat) → Value → List Value → (description : Text) →
    Run Value
  | 0, _, _, _ => fail .stackOverflow
  | depth + 1, function, args, description => do
    match function with
    | .builtin function =>
      callNative settings function.name function.arity? args (callBuiltin settings function args)
    | .method _ method receiver =>
      callNative settings method.name method.arity? args (callMethod method receiver args)
    | .closure ref =>
      match (← get).heap.closures[ref.index]? with
      | none => fail (.notAFunction description)
      | some closure =>
        if args.length ≠ closure.params.length then
          fail (.arity closure.name closure.params.length args.length)
        else
          note settings 3 fun heap =>
            "call " ++ closure.name ++ "(" ++ Value.argumentsText heap args ++ ")"
          -- inside the scope of the declaration, not of the caller
          let inner ← openScope closure.scope
          (closure.params.zip args).forM fun (name, value) => declareName inner name value
          let signal ← inOrder (execute settings depth inner) closure.body
          finishCall closure.name signal
    | _ => fail (.notAFunction description)

end

/-- Runs the statements of a program in a scope: the value that it returns, or `undefined`. -/
def program (settings : Settings) (limit : Nat) (scope : ScopeRef) (body : List Node) :
    Run Value := do
  note settings 1 fun _ => "run: " ++ toString body.length ++ " top-level statements"
  let signal ← inOrder (execute settings limit scope) body
  match signal with
  | .breaking | .continuing => fail (.strayJump signal.name none)
  | .normal =>
    note settings 1 fun _ => "run: finished with <" ++ signal.name ++ ">"
    return .undefined
  | .returning value =>
    note settings 1 fun _ => "run: finished with <" ++ signal.name ++ ">"
    return value

end Run

end YapLang
