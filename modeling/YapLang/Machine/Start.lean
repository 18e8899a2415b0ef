import YapLang.Machine.Evaluation

/-!
# The state in which programs start

A program finds the built-in values bound to names in the global scope. They are ordinary bindings,
which a program may change.
-/
namespace YapLang.Machine

/-- The global scope is the first one. -/
def globalScope : ScopeRef := ⟨0⟩

/-- The built-in values and their names. -/
def builtins : Bindings :=
  [ ("true", .bool true),
    ("false", .bool false),
    ("undefined", .undefined),
    ("NaN", .number Double.nan),
    ("Infinity", .number Double.infinity),
    ("print", .builtin .print),
    ("yapping", .builtin .print),
    ("Math", .mathNamespace),
    ("nerdShit", .mathNamespace) ]

/-- A machine with the given bindings in its global scope and nothing else. -/
def start (bindings : Bindings) (draws : Nat → Float) : Machine where
  scopes := .single bindings
  heap := .empty
  stamps := 0
  draws := draws
  output := ""
  log := #[]

end YapLang.Machine

namespace YapLang.Run

/-- How deep evaluation may go. -/
def stackLimit : Nat := 10000

/-- Why a tree cannot be run as a program. -/
def bodyFaultMessage : Tree.BodyFault → String
  | .absent form => Tree.BodyFault.absentMessage form
  | .isBlock => "object of type 'Block' has no len()"

end YapLang.Run
