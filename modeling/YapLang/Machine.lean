import YapLang.Fault
import YapLang.Scope
import YapLang.Value.Operator

/-!
# The machine that programs run on

All state of a run: the scopes, the heap, what was printed, what was logged, and the random numbers
to come, of which nothing is said but that they are numbers. A run either gives a value, ends with a
fault, or is left unfinished because a loop went on for too long; the state that it reached is kept
in every case. Programs touch the state through the operations of this module only.
-/
namespace YapLang

/-- A message for those who trace a program. The higher its level, the more detailed. -/
structure LogEntry where
  level : Nat
  message : Text
  deriving DecidableEq, Repr

structure Machine where
  scopes : Scopes
  heap : Heap
  /-- The number of methods that were taken from arrays. -/
  stamps : Nat
  /-- The random numbers that are still to be drawn. -/
  draws : Nat → Float
  output : Text
  log : Array LogEntry

/-- Why a run ended without a value. -/
inductive Halt where
  | fault (fault : Fault)
  | unfinished
  deriving DecidableEq, Repr

/-- How a program is run. -/
structure Settings where
  /-- The greatest level of messages that are logged. -/
  verbosity : Nat
  /-- How often a loop may go round. -/
  patience : Nat
  /-- Where the program prints. -/
  stream : Stream

abbrev Run := EStateM Halt Machine

namespace Run

def fail {α : Type} (fault : Fault) : Run α :=
  throw (.fault fault)

/-- Computes something from the heap. -/
def compute {α : Type} (f : Heap → Except Fault α) : Run α := do
  match f (← get).heap with
  | .ok a => return a
  | .error fault => fail fault

/-! ### Scopes -/

def readName (scope : ScopeRef) (name : Text) : Run Value := do
  match (← get).scopes.get? name scope with
  | some value => return value
  | none => fail (.undefinedName name)

/-- Assigns to a name and gives the value. -/
def assignName (scope : ScopeRef) (name : Text) (value : Value) : Run Value := do
  match (← get).scopes.resolve? name scope with
  | some owner =>
    modify fun m => { m with scopes := m.scopes.declare name value owner }
    return value
  | none => fail (.undeclaredTarget name)

def declareName (scope : ScopeRef) (name : Text) (value : Value) : Run Unit :=
  modify fun m => { m with scopes := m.scopes.declare name value scope }

/-- Creates a scope inside the given one. -/
def openScope (parent : ScopeRef) : Run ScopeRef :=
  modifyGet fun m => (m.scopes.next, { m with scopes := m.scopes.child parent })

/-! ### Arrays and functions -/

def newArray (items : Array Value) : Run Value :=
  modifyGet fun m =>
    (.array ⟨m.heap.arrays.size⟩,
      { m with heap := { m.heap with arrays := m.heap.arrays.push items } })

/-- Replaces the items of an array by a function of them. -/
def changeItems (ref : ArrayRef) (f : Array Value → Array Value) : Run Unit :=
  modify fun m => { m with heap := { m.heap with arrays := m.heap.arrays.modify ref.index f } }

def newClosure (closure : Closure) : Run Value :=
  modifyGet fun m =>
    (.closure ⟨m.heap.closures.size⟩,
      { m with heap := { m.heap with closures := m.heap.closures.push closure } })

/-- Takes a method from an array. -/
def newMethod (name : ArrayMethod) (receiver : ArrayRef) : Run Value :=
  modifyGet fun m => (.method m.stamps name receiver, { m with stamps := m.stamps + 1 })

/-! ### Output -/

/-- Prints a text, if the stream takes it. -/
def write (settings : Settings) (text : Text) : Run Unit :=
  match settings.stream.refusal? text with
  | some cause => fail (.unencodable cause)
  | none => modify fun m => { m with output := m.output ++ text }

/-- Logs a message, if its level is wanted. Only then is it put together. -/
def note (settings : Settings) (level : Nat) (message : Heap → Text) : Run Unit :=
  if level ≤ settings.verbosity then
    modify fun m => { m with log := m.log.push ⟨level, message m.heap⟩ }
  else
    pure ()

/-! ### Random numbers -/

/-- Draws the next number. -/
def drawNumber : Run Float :=
  modifyGet fun m => (m.draws 0, { m with draws := fun n => m.draws (n + 1) })

end Run

end YapLang
