import YapLang.Value

/-!
# Scopes

A scope binds names and lies inside another scope, or is outermost. A name means its binding in the
nearest scope of the chain from the current one outward. Assignment changes that binding and never
makes one; a declaration binds in the current scope, whatever the others hold. A scope is created
after the one it lies inside, so a chain is no longer than the number of scopes up to its start.
-/
namespace YapLang

/-- Names and their values, in the order in which the names came. -/
abbrev Bindings := List (Text × Value)

namespace Bindings

/-- The value that a name is bound to. -/
def get? (name : Text) : Bindings → Option Value
  | [] => none
  | (n, v) :: rest => if n = name then some v else get? name rest

/-- Binds a name: in its place if it has one, otherwise at the end. -/
def bind (name : Text) (value : Value) : Bindings → Bindings
  | [] => [(name, value)]
  | (n, v) :: rest => if n = name then (n, value) :: rest else (n, v) :: bind name value rest

/-- A name that was just bound has the new value, and all others are as before. -/
theorem get?_bind (name x : Text) (value : Value) (bindings : Bindings) :
    (bindings.bind name value).get? x = if name = x then some value else bindings.get? x := by
  induction bindings with
  | nil => simp [bind, get?]
  | cons binding rest ih =>
    obtain ⟨n, v⟩ := binding
    by_cases same : n = name <;> grind [bind, get?]

theorem mem_of_get? {name : Text} {value : Value} {bindings : Bindings}
    (bound : bindings.get? name = some value) : (name, value) ∈ bindings := by
  induction bindings with
  | nil => cases bound
  | cons binding rest ih =>
    rw [get?] at bound
    split at bound
    next same =>
      cases bound
      subst same
      exact List.mem_cons_self
    · exact List.mem_cons_of_mem _ (ih bound)

end Bindings

structure Scope where
  parent : Option ScopeRef
  bindings : Bindings
  deriving Repr

/-- All scopes, in the order in which they were created. -/
structure Scopes where
  all : Array Scope
  deriving Repr

namespace Scopes

/-- One outermost scope. -/
def single (bindings : Bindings) : Scopes :=
  ⟨#[⟨none, bindings⟩]⟩

def parent? (scopes : Scopes) (ref : ScopeRef) : Option ScopeRef :=
  (scopes.all[ref.index]?).bind Scope.parent

/-- The bindings of a scope itself. -/
def bindings (scopes : Scopes) (ref : ScopeRef) : Bindings :=
  ((scopes.all[ref.index]?).map Scope.bindings).getD []

/-- The scope that the next child will be. -/
def next (scopes : Scopes) : ScopeRef :=
  ⟨scopes.all.size⟩

/-- Creates a scope inside the given one. -/
def child (scopes : Scopes) (parent : ScopeRef) : Scopes :=
  ⟨scopes.all.push ⟨some parent, []⟩⟩

/-- At most `fuel` scopes of the chain that starts at the given one. -/
def chainFrom (scopes : Scopes) : (fuel : Nat) → ScopeRef → List ScopeRef
  | 0, _ => []
  | fuel + 1, ref =>
    ref ::
      match scopes.parent? ref with
      | some parent => chainFrom scopes fuel parent
      | none => []

/-- The chain of scopes from the given one outward. -/
def chain (scopes : Scopes) (ref : ScopeRef) : List ScopeRef :=
  scopes.chainFrom (ref.index + 1) ref

/-- The value that a scope itself binds a name to. -/
def own? (scopes : Scopes) (name : Text) (ref : ScopeRef) : Option Value :=
  (scopes.bindings ref).get? name

/-- The nearest scope that binds a name. -/
def resolve? (scopes : Scopes) (name : Text) (ref : ScopeRef) : Option ScopeRef :=
  (scopes.chain ref).find? fun owner => (scopes.own? name owner).isSome

/-- The value of a name. -/
def get? (scopes : Scopes) (name : Text) (ref : ScopeRef) : Option Value :=
  (scopes.resolve? name ref).bind (scopes.own? name)

/-- Binds a name in a scope. -/
def declare (scopes : Scopes) (name : Text) (value : Value) (ref : ScopeRef) : Scopes :=
  ⟨scopes.all.modify ref.index fun scope =>
    { scope with bindings := scope.bindings.bind name value }⟩

/-- The names that a scope itself binds, in the order of their letters. -/
def names (scopes : Scopes) (ref : ScopeRef) : List Text :=
  ((scopes.bindings ref).map Prod.fst).mergeSort fun a b => a ≤ b

/-! ### What a declaration and a new scope change -/

section

variable (scopes : Scopes) (name x : Text) (value : Value) (target ref parent : ScopeRef)

@[simp] theorem parent?_declare :
    (scopes.declare name value target).parent? ref = scopes.parent? ref := by
  simp only [declare, parent?, Array.getElem?_modify]
  split
  · cases scopes.all[ref.index]? <;> rfl
  · rfl

theorem bindings_declare (created : target.index < scopes.all.size) :
    (scopes.declare name value target).bindings ref =
      if target = ref then (scopes.bindings ref).bind name value else scopes.bindings ref := by
  obtain ⟨i⟩ := target
  obtain ⟨j⟩ := ref
  simp only [declare, bindings, Array.getElem?_modify, ScopeRef.mk.injEq]
  split
  · subst j
    simp [Array.getElem?_eq_getElem created]
  · rfl

/-- A declaration changes one name in one scope. -/
theorem own?_declare (created : target.index < scopes.all.size) :
    (scopes.declare name value target).own? x ref =
      if target = ref ∧ name = x then some value else scopes.own? x ref := by
  simp only [own?, bindings_declare scopes name value target ref created]
  by_cases same : target = ref <;> simp [same, Bindings.get?_bind]

theorem parent?_child (created : ref.index < scopes.all.size) :
    (scopes.child parent).parent? ref = scopes.parent? ref := by
  simp [parent?, child, Array.getElem?_push, Nat.ne_of_lt created]

theorem own?_child (created : ref.index < scopes.all.size) :
    (scopes.child parent).own? x ref = scopes.own? x ref := by
  simp [own?, bindings, child, Array.getElem?_push, Nat.ne_of_lt created]

@[simp] theorem parent?_child_next : (scopes.child parent).parent? scopes.next = some parent := by
  simp [parent?, child, next]

@[simp] theorem own?_child_next : (scopes.child parent).own? x scopes.next = none := by
  simp [own?, bindings, child, next, Bindings.get?]

end

end Scopes

end YapLang
