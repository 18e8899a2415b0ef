import YapLang.Machine.Start
import YapLang.Proofs.DocumentSchema

/-!
# Running a document as it is

A program is run here from its document, which nobody has checked: a node is asked for its form and
its fields when they come up. Where a field is not there, or holds something else than what is
needed, the run crashes. It also crashes where a list is asked for an item that it does not have, a
scope for a name that it does not bind, a function below the language for a value at the wrong
number of arguments, a text for its number if it only looks like one, and a stream for a place for
letters that it has none for. A crash is no fault of the program that is run: it is what the reading
of the document, the checks of arguments, the bounds of indices and the forms of numbers are there
to rule out. Nothing rules out the last one.
-/
namespace YapLang

/-- What goes wrong below the language. -/
inductive Crash where
  /-- A field that the node does not have. -/
  | noField (name : String)
  /-- Something else than what is needed. -/
  | wrongKind (needed : Kind)
  /-- A name that the scope does not bind. -/
  | unbound (name : Text)
  /-- An item that the list does not have. -/
  | noItem
  /-- A function without the arguments that it takes. -/
  | wrongArguments
  /-- A text that has the form of a number and cannot be read as one. -/
  | notANumber (text : String)
  /-- A text that the stream refuses. -/
  | unencodable (cause : Text.Unencodable)
  deriving DecidableEq, Repr

namespace Unchecked

open Document (field)

/-! ### What a node holds -/

/-- The field of a node, which is smaller than the node. A form has its own fields only. -/
def part (d : Document) (name : String) :
    Except Crash { inner : Document // sizeOf inner < sizeOf d } :=
  match d with
  | .object fields =>
    match (Document.object fields).form? with
    | some form =>
      if name ∈ form.declared.map Prod.fst then
        .ok ⟨field fields name, Document.sizeOf_field_lt fields name⟩
      else .error (.noField name)
    | none => .error (.noField name)
  | _ => .error (.noField name)

/-- What a field of a node holds. -/
def fieldAt (d : Document) (name : String) : Except Crash Document :=
  (part d name).map Subtype.val

def text : Document → Except Crash Text
  | .text s => .ok s
  | _ => .error (.wrongKind .text)

def number : Document → Except Crash LiteralValue
  | .int n => .ok (.int n)
  | .double x => .ok (.double x)
  | _ => .error (.wrongKind .number)

def truth : Document → Except Crash Bool
  | .bool b => .ok b
  | _ => .error (.wrongKind .truth)

def items : Document → Except Crash (List Document)
  | .list items => .ok items
  | _ => .error (.wrongKind .nodes)

def texts (d : Document) : Except Crash (List Text) := do
  (← items d).mapM text

/-- A node that may be left out. -/
def optional : Document → Option Document
  | .null => none
  | d => some d

/-- The text in a field. -/
def textAt (d : Document) (name : String) : Except Crash Text := do
  text (← fieldAt d name)

/-- The nodes in a field. -/
def itemsAt (d : Document) (name : String) : Except Crash (List Document) := do
  items (← fieldAt d name)

/-- The name of the node in a field. -/
def nameAt (d : Document) (name : String) : Except Crash Text := do
  textAt (← fieldAt d name) "name"

/-- The statements of a block. -/
def statements (d : Document) : Except Crash (List Document) :=
  if d.form? = some .block then itemsAt d "body" else .error (.wrongKind .block)

/-- The statements of the block in a field. -/
def statementsAt (d : Document) (name : String) : Except Crash (List Document) := do
  statements (← fieldAt d name)

/-- A short name of an expression, for messages about calls. -/
def describe (d : Document) : Except Crash Text :=
  match d.form? with
  | some .identifier => textAt d "name"
  | some .member => do
    let object ← part d "object"
    let described ← describe object.1
    if ← truth (← fieldAt d "computed") then return described ++ "[...]"
    else return described ++ "." ++ (← nameAt d "property")
  | some .call => do
    let callee ← part d "callee"
    return (← describe callee.1) ++ "(...)"
  | some form => return form.name.map Char.toLower
  | none => .error (.wrongKind .node)
termination_by sizeOf d
decreasing_by
  · exact object.2
  · exact callee.2

/-! ### Runs that can crash -/

/-- A function as it was declared: nothing of it is looked at before it is called. -/
structure Function where
  params : Document
  body : Document

/-- The machine knows the names and the scopes of the functions that were declared, but neither
parameters nor bodies. -/
structure State where
  machine : Machine
  functions : Array Function

/-- Why a run ended without a value. -/
inductive Stop where
  | halt (cause : Halt)
  | crash (cause : Crash)
  deriving DecidableEq, Repr

/-- The run stops where the machine halts. A text that is refused is no fault of the language. -/
def Stop.ofHalt : Halt → Stop
  | .fault (.unencodable cause) => .crash (.unencodable cause)
  | cause => .halt cause

end Unchecked

abbrev Unchecked := EStateM Unchecked.Stop Unchecked.State

namespace Unchecked

variable {α : Type}

def crash (cause : Crash) : Unchecked α :=
  throw (.crash cause)

def fail (fault : Fault) : Unchecked α :=
  throw (.ofHalt (.fault fault))

/-- Looks into a document. -/
def look : Except Crash α → Unchecked α
  | .ok a => pure a
  | .error cause => crash cause

/-- A step of the machine. -/
def lift (step : Run α) : Unchecked α := fun s =>
  match step s.machine with
  | .ok a m => .ok a { s with machine := m }
  | .error halt m => .error (.ofHalt halt) { s with machine := m }

/-! ### Names, members and built-in functions -/

/-- Reads a name from the scope that binds it. -/
def readName (scope : ScopeRef) (name : Text) : Unchecked Value := do
  let scopes := (← get).machine.scopes
  match scopes.resolve? name scope with
  | none => fail (.undefinedName name)
  | some owner =>
    -- the scope is asked for the name, as if it had to be there
    match scopes.own? name owner with
    | some value => return value
    | none => crash (.unbound name)

/-- The item at an index that is in bounds. -/
def itemAt (items : List Value) (index : Float) : Unchecked Value :=
  match Double.toInt? index with
  | some (.ofNat i) =>
    -- in bounds, the item is taken without asking whether it is there
    if i < items.length then
      match items[i]? with
      | some item => return item
      | none => crash .noItem
    else return .undefined
  | _ => return .undefined

def readMember (target key : Value) : Unchecked Value := do
  let heap := (← get).machine.heap
  match target, key with
  | .array ref, .number index => itemAt (heap.items ref).toList index
  | .text s, .number index => itemAt (s.letters.map fun letter => .text (.ofLetters [letter])) index
  | _, _ => lift (Run.readMember target key)

/-- Reads a text as a number, if it has the form of one. -/
def numeral : Text → Except Crash Unit
  | .whole s =>
    let cs := Text.trimBlanks s.toList
    match Text.signedNumber? cs, Text.tokenNumber? (String.ofList cs) with
    -- it looked like a number, but it cannot be read as one
    | some _, none => .error (.notANumber (String.ofList cs))
    | _, _ => .ok ()
  | _ => .ok ()

/-- Takes a value as a number. -/
def convert (value : Value) : Unchecked Unit := do
  look (numeral (value.toText (← get).machine.heap))

/-- A function below the language takes a fixed number of arguments, and those of the namespace take
numbers. -/
def callBuiltin (settings : Settings) (function : Builtin) (args : List Value) :
    Unchecked Value := do
  if function.arity?.all (· = args.length) then
    match function with
    | .print => pure ()
    | .math _ => args.forM convert
    lift (Run.callBuiltin settings function args)
  else crash .wrongArguments

/-- Removes the last item of an array that has one. -/
def popItem (ref : ArrayRef) : Unchecked Value := do
  let items := (← get).machine.heap.items ref
  if items.isEmpty then return .undefined
  else
    match items.back? with
    | some last =>
      lift (Run.changeItems ref Array.pop)
      return last
    | none => crash .noItem

def callMethod (method : ArrayMethod) (ref : ArrayRef) (args : List Value) : Unchecked Value :=
  match method, args with
  | .pop, _ => popItem ref
  -- the other methods make do without arguments
  | .indexOf, [] => crash .wrongArguments
  | _, _ => lift (Run.callMethod method ref args)

/-- Calls a built-in function or a method: the number of arguments is checked first. -/
def callNative (settings : Settings) (name : String) (arity? : Option Nat) (args : List Value)
    (body : Unchecked Value) : Unchecked Value := do
  match arity? with
  | some expected =>
    if args.length ≠ expected then fail (.arity name expected args.length)
  | none => pure ()
  lift (Run.note settings 3 fun _ => "call native " ++ name)
  body

/-- Declares a function and leaves it as it is. -/
def newFunction (name : Text) (function : Function) (scope : ScopeRef) : Unchecked Value := do
  modify fun s => { s with functions := s.functions.push function }
  lift (Run.newClosure ⟨name, [], [], scope⟩)

/-! ### Statements in sequence and in loops -/

def inOrder (execute : Document → Unchecked Signal) : List Document → Unchecked Signal
  | [] => return .normal
  | d :: rest => do
    match ← execute d with
    | .normal => inOrder execute rest
    | signal => return signal

def rounds (round : Unchecked (Option α)) : (patience : Nat) → Unchecked α
  | 0 => throw (.ofHalt .unfinished)
  | patience + 1 => do
    match ← round with
    | some result => return result
    | none => rounds round patience

def loopRound (test : Unchecked Bool) (body : Unchecked Signal) (update : Unchecked Unit) :
    Unchecked (Option Signal) := do
  if ← test then
    match ← body with
    | .breaking => return some .normal
    | .returning value => return some (.returning value)
    | _ =>
      update
      return none
  else
    return some .normal

def loop (settings : Settings) (test : Unchecked Bool) (body : Unchecked Signal)
    (update : Unchecked Unit) : Unchecked Signal :=
  rounds (loopRound test body update) settings.patience

def inBlock (execute : ScopeRef → Document → Unchecked Signal) (scope : ScopeRef)
    (body : List Document) : Unchecked Signal := do
  let inner ← lift (Run.openScope scope)
  inOrder (execute inner) body

/-! ### Evaluation -/

mutual

/-- Evaluates an expression. -/
def evaluate (settings : Settings) : (depth : Nat) → ScopeRef → Document → Unchecked Value
  | 0, _, _ => fail .stackOverflow
  | depth + 1, scope, d => do
    let eval := evaluate settings depth scope
    match d.form? with
    | some .number =>
      let value ← look (do number (← fieldAt d "value"))
      return .number (← lift (Run.compute fun _ => Run.literal value))
    | some .text => return .text (← look (textAt d "value"))
    | some .identifier => readName scope (← look (textAt d "name"))
    | some .binary =>
      let a ← eval (← look (fieldAt d "left"))
      let b ← eval (← look (fieldAt d "right"))
      let op ← look (textAt d "op")
      convert a
      convert b
      lift (Run.compute (Value.binary · op a b))
    | some .logical =>
      let a ← eval (← look (fieldAt d "left"))
      match ← look (textAt d "op") with
      | .whole "&&" => if a.isTruthy then eval (← look (fieldAt d "right")) else return a
      | .whole "||" => if a.isTruthy then return a else eval (← look (fieldAt d "right"))
      | op => fail (.unsupportedLogical op)
    | some .unary =>
      let a ← eval (← look (fieldAt d "operand"))
      let op ← look (textAt d "op")
      convert a
      lift (Run.compute (Value.unary · op a))
    | some .assignment =>
      let a ← eval (← look (fieldAt d "value"))
      let target ← look (nameAt d "target")
      lift (Run.assignName scope target a)
    | some .update =>
      let target ← look (nameAt d "target")
      let old ← readName scope target
      convert old
      let x ← lift (Run.number old)
      let op ← look (textAt d "op")
      let y ← lift (Run.compute fun _ => Run.updated op x)
      lift (Run.assignName scope target (.number y))
    | some .call =>
      let callee ← look (fieldAt d "callee")
      let function ← eval callee
      let values ← (← look (itemsAt d "args")).mapM eval
      let description ← look (describe callee)
      call settings depth function values description
    | some .member =>
      let target ← eval (← look (fieldAt d "object"))
      if ← look (do truth (← fieldAt d "computed")) then
        let key ← eval (← look (fieldAt d "property"))
        readMember target key
      else
        let name ← look (nameAt d "property")
        readMember target (.text name)
    | some .array =>
      let items ← (← look (itemsAt d "elements")).mapM eval
      lift (Run.newArray items.toArray)
    | some form => fail (.cannotEvaluate form.name)
    | none => crash (.wrongKind .node)

/-- Runs a statement. -/
def execute (settings : Settings) : (depth : Nat) → ScopeRef → Document → Unchecked Signal
  | 0, _, _ => fail .stackOverflow
  | depth + 1, scope, d => do
    let eval := evaluate settings depth
    let exec := execute settings depth
    match d.form? with
    | some .statement =>
      let _ ← eval scope (← look (fieldAt d "expr"))
      return .normal
    | some .declaration =>
      let value ←
        match optional (← look (fieldAt d "init")) with
        | some expr => eval scope expr
        | none => pure .undefined
      let name ← look (textAt d "name")
      lift (Run.declareName scope name value)
      lift (Run.note settings 2 fun heap => "declare " ++ name ++ " = " ++ value.toText heap)
      return .normal
    | some .function =>
      let name ← look (textAt d "name")
      let function := ⟨← look (fieldAt d "params"), ← look (fieldAt d "body")⟩
      let value ← newFunction name function scope
      lift (Run.declareName scope name value)
      let params ← look (texts function.params)
      lift (Run.note settings 2 fun _ =>
        "define function " ++ name ++ "(" ++ Text.intercalate ", " params ++ ")")
      return .normal
    | some .block => inBlock exec scope (← look (itemsAt d "body"))
    | some .conditional =>
      let value ← eval scope (← look (fieldAt d "test"))
      lift (Run.note settings 3 fun heap =>
        "if condition " ++ value.toText heap ++ " -> " ++ (Value.bool value.isTruthy).toText heap)
      if value.isTruthy then
        inBlock exec scope (← look (statementsAt d "consequent"))
      else
        match optional (← look (fieldAt d "alternate")) with
        | some other => exec scope other
        | none => return .normal
    | some .whileLoop =>
      let test ← look (fieldAt d "test")
      let body ← look (statementsAt d "body")
      loop settings (return (← eval scope test).isTruthy) (inBlock exec scope body) (pure ())
    | some .forLoop =>
      let inner ← lift (Run.openScope scope)
      match optional (← look (fieldAt d "init")) with
      | none => pure ()
      | some init =>
        if init.form? = some .declaration then
          let _ ← exec inner init
        else
          let _ ← eval inner init
      let test := optional (← look (fieldAt d "test"))
      let update := optional (← look (fieldAt d "update"))
      let body ← look (statementsAt d "body")
      loop settings
        (match test with
          | some expr => return (← eval inner expr).isTruthy
          | none => return true)
        (inBlock exec inner body)
        (match update with
          | some expr => do let _ ← eval inner expr
          | none => pure ())
    | some .returning =>
      match optional (← look (fieldAt d "argument")) with
      | some expr => return .returning (← eval scope expr)
      | none => return .returning .undefined
    | some .breakJump => return .breaking
    | some .continueJump => return .continuing
    | some form => fail (.cannotExecute form.name)
    | none => crash (.wrongKind .node)

/-- Calls a value with arguments. Only now is a function looked at. -/
def call (settings : Settings) : (depth : Nat) → Value → List Value → (description : Text) →
    Unchecked Value
  | 0, _, _, _ => fail .stackOverflow
  | depth + 1, function, args, description => do
    match function with
    | .builtin function =>
      callNative settings function.name function.arity? args (callBuiltin settings function args)
    | .method _ method receiver =>
      callNative settings method.name method.arity? args (callMethod method receiver args)
    | .closure ref =>
      let s ← get
      match s.machine.heap.closures[ref.index]?, s.functions[ref.index]? with
      | some closure, some function =>
        let params ← look (texts function.params)
        if args.length ≠ params.length then
          fail (.arity closure.name params.length args.length)
        else
          lift (Run.note settings 3 fun heap =>
            "call " ++ closure.name ++ "(" ++ Value.argumentsText heap args ++ ")")
          let inner ← lift (Run.openScope closure.scope)
          lift ((params.zip args).forM fun (name, value) => Run.declareName inner name value)
          let body ← look (statements function.body)
          let signal ← inOrder (execute settings depth inner) body
          lift (Run.finishCall closure.name signal)
      | _, _ => fail (.notAFunction description)
    | _ => fail (.notAFunction description)

end

/-- Runs the document of a program in a scope. -/
def program (settings : Settings) (limit : Nat) (scope : ScopeRef) (d : Document) :
    Unchecked Value := do
  let body ← look (itemsAt d "body")
  lift (Run.note settings 1 fun _ => "run: " ++ toString body.length ++ " top-level statements")
  let signal ← inOrder (execute settings limit scope) body
  match signal with
  | .breaking | .continuing => fail (.strayJump signal.name none)
  | .normal =>
    lift (Run.note settings 1 fun _ => "run: finished with <" ++ signal.name ++ ">")
    return .undefined
  | .returning value =>
    lift (Run.note settings 1 fun _ => "run: finished with <" ++ signal.name ++ ">")
    return value

/-- Runs the document of a program on a new machine. -/
def outcome (settings : Settings) (limit : Nat) (draws : Nat → Float) (d : Document) :
    EStateM.Result Stop State Value :=
  program settings limit Machine.globalScope d ⟨Machine.start Machine.builtins draws, #[]⟩

end Unchecked

end YapLang
