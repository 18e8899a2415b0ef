import YapLang.Text.Encoding

/-!
# Faults of a running program

A fault ends a run. Its kind and its message are read off its cause.
-/
namespace YapLang

inductive Fault where
  /-- A name without a binding is read. -/
  | undefinedName (name : Text)
  /-- A name without a binding is assigned to. -/
  | undeclaredTarget (name : Text)
  /-- Something else than a function is called. -/
  | notAFunction (callee : Text)
  /-- A property of `undefined` is read. -/
  | propertyOfUndefined (key : Text)
  /-- A function is called with too many or too few arguments. -/
  | arity (function : Text) (expected got : Nat)
  /-- An expression stands where a statement should be. -/
  | cannotExecute (form : String)
  /-- A statement stands where an expression should be. -/
  | cannotEvaluate (form : String)
  | unsupportedBinary (op : Text) (left right : String)
  | unsupportedLogical (op : Text)
  | unsupportedUnary (op : Text)
  | unsupportedUpdate (op : Text)
  /-- A jump that left the program or a function. -/
  | strayJump (jump : String) (function : Option Text)
  /-- Evaluation is nested beyond the limit. -/
  | stackOverflow
  /-- An integer is beyond the range of doubles. -/
  | integerTooLarge
  /-- A text is printed that the stream cannot take. -/
  | unencodable (cause : Text.Unencodable)
  deriving DecidableEq, Repr

namespace Fault

inductive Kind where
  | reference
  | type
  | arity
  | runtime
  /-- A number out of range. It is not an error of the language, but of the machine below it. -/
  | range
  /-- A letter without a code. It is not an error of the language either. -/
  | encoding
  deriving DecidableEq, Repr

def kind : Fault → Kind
  | undefinedName _ | undeclaredTarget _ => .reference
  | notAFunction _ | propertyOfUndefined _ => .type
  | arity .. => .arity
  | cannotExecute _ | cannotEvaluate _ | unsupportedBinary .. | unsupportedLogical _
  | unsupportedUnary _ | unsupportedUpdate _ | strayJump .. | stackOverflow => .runtime
  | integerTooLarge => .range
  | unencodable _ => .encoding

def message : Fault → Text
  | undefinedName name => name ++ " is not defined"
  | undeclaredTarget name => "cannot assign to undeclared variable " ++ name
  | notAFunction callee => callee ++ " is not a function"
  | propertyOfUndefined key => "cannot read property '" ++ key ++ "' of undefined"
  | arity function expected got =>
    function ++ " expects " ++ toString expected ++ " arguments but got " ++ toString got
  | cannotExecute form => "cannot execute " ++ form ++ " node"
  | cannotEvaluate form => "cannot evaluate " ++ form ++ " node"
  | unsupportedBinary op left right =>
    "unsupported operator " ++ op ++ " for " ++ left ++ " and " ++ right
  | unsupportedLogical op => "unsupported logical operator " ++ op
  | unsupportedUnary op => "unsupported unary operator " ++ op
  | unsupportedUpdate op => "unsupported update operator " ++ op
  | strayJump jump none => "'" ++ jump ++ "' outside of a loop"
  | strayJump jump (some function) => "'" ++ jump ++ "' outside of a loop in " ++ function
  | stackOverflow => "maximum call stack size exceeded"
  | integerTooLarge => "int too large to convert to float"
  | unencodable cause => cause.message

end Fault

end YapLang
