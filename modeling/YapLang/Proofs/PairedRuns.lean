import YapLang.Proofs.RunLogic

/-!
# Two runs side by side

Two machines that differ in something a program cannot see run it alike: step by step they stay
related in the same way, and they end with the same value or for the same reason. What the relation
is and what can be seen are parameters. It is enough that the machine's own operations keep the
relation, on names that are visible and in scopes that correspond; evaluation follows form by form,
as the functions that were stored hold visible names only and were declared in such scopes.
-/
namespace YapLang

/-! ### The names in a tree -/

namespace Tree

variable {τ : Type}

mutual

/-- The names that the tree reads, assigns to, declares or takes as parameters, anywhere in it. The
name after a dot is none of them. -/
def names : Tree τ → List Text
  | program body | block body => namesOfAll body
  | function name params body => name :: (params ++ namesOfAll body)
  | declaration name init => name :: namesOfOptional init
  | conditional test consequent alternate =>
    names test ++ (namesOfAll consequent ++ namesOfOptional alternate)
  | forLoop init test step body =>
    namesOfOptional init ++ (namesOfOptional test ++ (namesOfOptional step ++ namesOfAll body))
  | whileLoop test body => names test ++ namesOfAll body
  | returning argument => namesOfOptional argument
  | statement expr => names expr
  | identifier name => [name]
  | binary _ left right | logical _ left right => names left ++ names right
  | unary _ operand => names operand
  | assignment target value => target :: names value
  | update _ target => [target]
  | call callee args => names callee ++ namesOfAll args
  | property object _ => names object
  | index object key => names object ++ names key
  | array elements => namesOfAll elements
  | breakJump | continueJump | number _ | text _ => []

def namesOfAll : List (Tree τ) → List Text
  | [] => []
  | tree :: rest => names tree ++ namesOfAll rest

def namesOfOptional : Option (Tree τ) → List Text
  | none => []
  | some tree => names tree

end

theorem names_subset_namesOfAll {tree : Tree τ} {trees : List (Tree τ)} (member : tree ∈ trees) :
    tree.names ⊆ namesOfAll trees := by
  induction trees with
  | nil => cases member
  | cons first rest ih =>
    rw [namesOfAll]
    rcases List.mem_cons.1 member with rfl | member
    · exact List.subset_append_left _ _
    · exact fun name isName => List.mem_append_right _ (ih member isName)

end Tree

/-! ### What can be seen of a heap -/

/-- Heaps with the same arrays and the same names of functions. -/
structure Heap.Alike (heap other : Heap) : Prop where
  arrays : heap.arrays = other.arrays
  names : ∀ ref, heap.closureName ref = other.closureName ref

section Alike

variable {heap other : Heap} (alike : heap.Alike other)
include alike

theorem Heap.Alike.items (ref : ArrayRef) : heap.items ref = other.items ref := by
  rw [Heap.items, Heap.items, alike.arrays]

theorem Value.scalarText_alike (value : Value) :
    value.scalarText heap = value.scalarText other := by
  cases value with
  | bool b => cases b <;> rfl
  | closure ref => rw [scalarText, scalarText, alike.names]
  | _ => rfl

namespace Value

theorem renderFuel_alike : renderFuel heap = renderFuel other := by
  rw [renderFuel, renderFuel, alike.arrays]

theorem textWithin_alike (fuel : Nat) (active : List ArrayRef) (value : Value) :
    value.textWithin heap fuel active = value.textWithin other fuel active := by
  induction fuel generalizing active value with
  | zero => cases value <;> simp [textWithin, scalarText_alike alike]
  | succ fuel ih => cases value <;> simp [textWithin, scalarText_alike alike, alike.items, ih]

theorem inspectWithin_alike (fuel : Nat) (nested : Bool) (active : List ArrayRef) (value : Value) :
    value.inspectWithin heap fuel nested active = value.inspectWithin other fuel nested active := by
  induction fuel generalizing nested active value with
  | zero => cases value <;> cases nested <;> simp [inspectWithin, scalarText_alike alike]
  | succ fuel ih =>
    cases value <;> cases nested <;>
      simp [inspectWithin, scalarText_alike alike, alike.items, funext (ih true _)]

theorem toText_alike (value : Value) : value.toText heap = value.toText other := by
  rw [toText, toText, textWithin_alike alike, renderFuel_alike alike]

theorem inspect_alike (value : Value) : value.inspect heap = value.inspect other := by
  rw [inspect, inspect, inspectWithin_alike alike, renderFuel_alike alike]

theorem toNumber_alike (value : Value) : value.toNumber heap = value.toNumber other := by
  cases value <;> simp [toNumber, alike.items, toText_alike alike]

theorem looseEquals_alike (a b : Value) : looseEquals heap a b = looseEquals other a b := by
  simp [looseEquals, toText_alike alike]

theorem joinText_alike (separator : Option Value) (ref : ArrayRef) :
    joinText heap (Run.separatorText heap separator) ref =
      joinText other (Run.separatorText other separator) ref := by
  have same : Run.separatorText heap separator = Run.separatorText other separator := by
    unfold Run.separatorText
    split
    · rfl
    · rfl
    · exact toText_alike alike _
  simp [joinText, same, alike.items, textWithin_alike alike, renderFuel_alike alike]

theorem argumentsText_alike (args : List Value) :
    argumentsText heap args = argumentsText other args := by
  simp [argumentsText, textWithin_alike alike, renderFuel_alike alike]

theorem binary_alike (op : Text) (a b : Value) : binary heap op a b = binary other op a b := by
  have ordered (texts : Text → Text → Bool) (numbers : Float → Float → Bool) :
      ordering heap texts numbers a b = ordering other texts numbers a b := by
    cases a <;> cases b <;> simp [ordering, toNumber_alike alike]
  simp [binary, arithmetic, ordered, toText_alike alike, toNumber_alike alike,
    looseEquals_alike alike]

theorem unary_alike (op : Text) (a : Value) : unary heap op a = unary other op a := by
  simp [unary, toNumber_alike alike]

end Value

end Alike

/-- The heap without the scopes that its functions were declared in. -/
def Heap.unscoped (heap : Heap) : Heap :=
  { heap with closures := heap.closures.map fun closure => { closure with scope := ⟨0⟩ } }

theorem Heap.alike_unscoped (heap : Heap) : heap.unscoped.Alike heap where
  arrays := rfl
  names ref := by
    simp only [unscoped, closureName, Array.getElem?_map, Option.map_map]
    rfl

/-- Heaps that differ in the scopes of functions at most are alike. -/
theorem Heap.Alike.of_unscoped {heap other : Heap} (same : heap.unscoped = other.unscoped) :
    heap.Alike other where
  arrays := by
    rw [← heap.alike_unscoped.arrays, same, other.alike_unscoped.arrays]
  names ref := by
    rw [← heap.alike_unscoped.names, same, other.alike_unscoped.names]

namespace Run

variable {α β : Type} {S : Machine → Machine → Prop}

/-- Two runs ended with the same value or for the same reason, in related states. -/
inductive SameEnd (S : Machine → Machine → Prop) :
    EStateM.Result Halt Machine α → EStateM.Result Halt Machine α → Prop where
  | value {a m n} : S m n → SameEnd S (.ok a m) (.ok a n)
  | halt {halt m n} : S m n → SameEnd S (.error halt m) (.error halt n)

theorem SameEnd.mono {T : Machine → Machine → Prop} {x y : EStateM.Result Halt Machine α}
    (ends : SameEnd S x y) (weaker : ∀ m n, S m n → T m n) : SameEnd T x y := by
  cases ends with
  | value related => exact .value (weaker _ _ related)
  | halt related => exact .halt (weaker _ _ related)

theorem SameEnd.of_values {a b : α} {m n : Machine} (ends : SameEnd S (.ok a m) (.ok b n)) :
    a = b ∧ S m n := by
  cases ends with
  | value related => exact ⟨rfl, related⟩

/-- From related states, the two runs end alike. -/
def Paired (S : Machine → Machine → Prop) (x y : Run α) : Prop :=
  ∀ m n, S m n → SameEnd S (x m) (y n)

namespace Paired

/-! ### Rules -/

theorem pure (a : α) : Paired S (Pure.pure a) (Pure.pure a) :=
  fun _ _ related => .value related

theorem throw (halt : Halt) : Paired S (MonadExcept.throw halt : Run α) (MonadExcept.throw halt) :=
  fun _ _ related => .halt related

theorem fail (fault : Fault) : Paired S (Run.fail fault : Run α) (Run.fail fault) :=
  throw (.fault fault)

theorem bind {x y : Run α} {f g : α → Run β} (first : Paired S x y)
    (next : ∀ a, Paired S (f a) (g a)) : Paired S (x >>= f) (y >>= g) := by
  intro m n related
  show SameEnd S (EStateM.bind x f m) (EStateM.bind y g n)
  unfold EStateM.bind
  -- the ends are named, for the case split to see them as an end of the one and of the other
  have ends := first m n related
  generalize x m = left, y n = right at ends ⊢
  cases ends with
  | value still => exact next _ _ _ still
  | halt still => exact .halt still

theorem get {f g : Machine → Run α} (next : ∀ m n, S m n → Paired S (f m) (g n)) :
    Paired S (MonadState.get >>= f) (MonadState.get >>= g) :=
  fun m n related => next m n related m n related

theorem modifyGet {f g : Machine → α × Machine}
    (step : ∀ m n, S m n → (f m).1 = (g n).1 ∧ S (f m).2 (g n).2) :
    Paired S (MonadState.modifyGet f) (MonadState.modifyGet g) := by
  intro m n related
  obtain ⟨same, still⟩ := step m n related
  show SameEnd S (.ok (f m).1 (f m).2) (.ok (g n).1 (g n).2)
  rw [same]
  exact .value still

theorem changing {f g : Machine → Machine} (step : ∀ m n, S m n → S (f m) (g n)) :
    Paired S (modify f : Run PUnit) (modify g) :=
  modifyGet fun m n related => ⟨rfl, step m n related⟩

theorem mapM {f g : α → Run β} {xs : List α} (each : ∀ a ∈ xs, Paired S (f a) (g a)) :
    Paired S (xs.mapM f) (xs.mapM g) := by
  induction xs with
  | nil => exact pure []
  | cons a xs ih =>
    rw [List.mapM_cons, List.mapM_cons]
    refine (each a (by simp)).bind fun b => ?_
    refine (ih fun a member => each a (by simp [member])).bind fun bs => ?_
    exact pure (b :: bs)

theorem forM {f g : α → Run PUnit} {xs : List α} (each : ∀ a ∈ xs, Paired S (f a) (g a)) :
    Paired S (xs.forM f) (xs.forM g) := by
  induction xs with
  | nil => exact pure PUnit.unit
  | cons a xs ih =>
    refine (each a (by simp)).bind fun _ => ?_
    exact ih fun a member => each a (by simp [member])

/-! ### Statements in sequence and in loops -/

theorem inOrder {execute other : Node → Run Signal} {body : List Node}
    (each : ∀ node ∈ body, Paired S (execute node) (other node)) :
    Paired S (Run.inOrder execute body) (Run.inOrder other body) := by
  induction body with
  | nil => exact pure Signal.normal
  | cons node rest ih =>
    refine (each node (by simp)).bind fun signal => ?_
    cases signal with
    | normal => exact ih fun node member => each node (by simp [member])
    | breaking | continuing | returning => exact pure _

theorem rounds {round other : Run (Option α)} (patience : Nat) (each : Paired S round other) :
    Paired S (Run.rounds round patience) (Run.rounds other patience) := by
  induction patience with
  | zero => exact throw .unfinished
  | succ patience ih =>
    refine each.bind fun result => ?_
    cases result with
    | some a => exact pure a
    | none => exact ih

theorem loopRound {test test' : Run Bool} {body body' : Run Signal} {update update' : Run Unit}
    (tests : Paired S test test') (bodies : Paired S body body')
    (updates : Paired S update update') :
    Paired S (Run.loopRound test body update) (Run.loopRound test' body' update') := by
  refine tests.bind fun goesOn => ?_
  split
  · refine bodies.bind fun signal => ?_
    cases signal with
    | breaking | returning => exact pure _
    | normal | continuing => exact updates.bind fun _ => pure none
  · exact pure _

/-- The two streams take the same texts. -/
theorem write {s t : Settings} (stream : s.stream = t.stream) (text : Text)
    (printed : ∀ m n, S m n →
      S { m with output := m.output ++ text } { n with output := n.output ++ text }) :
    Paired S (Run.write s text) (Run.write t text) := by
  unfold Run.write
  rw [stream]
  split
  · exact .fail _
  · exact modifyGet fun m n related => ⟨rfl, printed m n related⟩

end Paired

/-! ### Built-in functions -/

/-- The heaps of related machines are alike, and the operations that have to do with neither scopes
nor functions keep the relation. What is printed depends on the settings too, so it is left
aside. -/
structure SeenAlike (S : Machine → Machine → Prop) : Prop where
  heap : ∀ {m n}, S m n → m.heap.Alike n.heap
  changeItems : ∀ ref f, Paired S (Run.changeItems ref f) (Run.changeItems ref f)
  newMethod : ∀ name ref, Paired S (Run.newMethod name ref) (Run.newMethod name ref)
  drawNumber : Paired S Run.drawNumber Run.drawNumber

namespace SeenAlike

variable (seen : SeenAlike S)
include seen

theorem compute {f : Heap → Except Fault α}
    (blind : ∀ {heap other : Heap}, heap.Alike other → f heap = f other) :
    Paired S (Run.compute f) (Run.compute f) := by
  apply Paired.get
  intro m n related
  -- what is computed from the one heap is computed from the other
  rw [blind (seen.heap related)]
  cases f n.heap with
  | ok a => exact .pure a
  | error fault => exact .fail fault

theorem number (value : Value) : Paired S (Run.number value) (Run.number value) :=
  seen.compute fun alike => value.toNumber_alike alike

theorem readMember (target key : Value) :
    Paired S (Run.readMember target key) (Run.readMember target key) := by
  apply Paired.get
  intro m n related
  have alike := seen.heap related
  simp only [key.toText_alike alike, alike.items]
  split
  · exact .fail _
  · exact .pure _
  · exact .pure _
  · split
    · exact .pure _
    · split
      · exact seen.newMethod _ _
      · exact .pure _
  all_goals exact .pure _

theorem callBuiltin {s t : Settings}
    (write : ∀ text, Paired S (Run.write s text) (Run.write t text)) (function : Builtin)
    (args : List Value) :
    Paired S (Run.callBuiltin s function args) (Run.callBuiltin t function args) := by
  unfold Run.callBuiltin
  split
  · apply Paired.get
    intro m n related
    have texts (value : Value) := value.inspect_alike (seen.heap related)
    simp only [texts]
    exact (write _).bind fun _ => .pure _
  · exact seen.drawNumber.bind fun x => .pure _
  · exact (Paired.mapM fun value _ => seen.number value).bind fun xs => .pure _

theorem callMethod (method : ArrayMethod) (ref : ArrayRef) (args : List Value) :
    Paired S (Run.callMethod method ref args) (Run.callMethod method ref args) := by
  unfold Run.callMethod
  split
  · refine (seen.changeItems ref _).bind fun _ => ?_
    apply Paired.get
    intro m n related
    rw [(seen.heap related).items]
    exact .pure _
  · apply Paired.get
    intro m n related
    rw [(seen.heap related).items]
    split
    · exact (seen.changeItems ref _).bind fun _ => .pure _
    · exact .pure _
  · apply Paired.get
    intro m n related
    dsimp only
    rw [Value.joinText_alike (seen.heap related)]
    exact .pure _
  · apply Paired.get
    intro m n related
    dsimp only [indexOfItem]
    rw [(seen.heap related).items]
    exact .pure _

end SeenAlike

end Run

/-- The names in the function are visible. -/
def Closure.NamesIn (visible : Text → Prop) (closure : Closure) : Prop :=
  (∀ param ∈ closure.params, visible param) ∧
    ∀ name ∈ Tree.namesOfAll closure.body, visible name

namespace Run

/-- The operations of the machine keep the relation between two machines that are run with these
settings, as far as names are visible and scopes correspond: names are looked up alike from the one
and from the other of two scopes, and perhaps declared alike in them. New scopes come to correspond
as they are created, so all of this is relative to a stage that two runs have reached. -/
structure Correspondence (states : Nat → Machine → Machine → Prop)
    (looks binds : Nat → ScopeRef → ScopeRef → Prop) (visible : Text → Prop) (s t : Settings) :
    Prop where
  patience : s.patience = t.patience
  earlier : ∀ {k k'}, k ≤ k' → ∀ {m n}, states k' m n → states k m n
  looksOfBinds : ∀ {k a b}, binds k a b → looks k a b
  heap : ∀ {k m n}, states k m n → m.heap.unscoped = n.heap.unscoped
  closures : ∀ {k m n}, states k m n → ∃ k', k ≤ k' ∧ states k' m n ∧
    ∀ {index : Nat} {closure other : Closure}, m.heap.closures[index]? = some closure →
      n.heap.closures[index]? = some other →
        closure.NamesIn visible ∧ binds k' closure.scope other.scope
  readName : ∀ {k a b}, looks k a b → ∀ {name}, visible name →
    Paired (states k) (Run.readName a name) (Run.readName b name)
  assignName : ∀ {k a b}, looks k a b → ∀ {name}, visible name → ∀ value,
    Paired (states k) (Run.assignName a name value) (Run.assignName b name value)
  declareName : ∀ {k a b}, binds k a b → ∀ {name}, visible name → ∀ value,
    Paired (states k) (Run.declareName a name value) (Run.declareName b name value)
  openScope : ∀ {k a b}, looks k a b → ∀ {m n}, states k m n → ∃ k', k ≤ k' ∧
    binds k' m.scopes.next n.scopes.next ∧
    states k' { m with scopes := m.scopes.child a } { n with scopes := n.scopes.child b }
  newArray : ∀ {k} items, Paired (states k) (Run.newArray items) (Run.newArray items)
  changeItems : ∀ {k} ref f, Paired (states k) (Run.changeItems ref f) (Run.changeItems ref f)
  newClosure : ∀ {k} {closure : Closure} {other}, binds k closure.scope other →
    closure.NamesIn visible →
    Paired (states k) (Run.newClosure closure) (Run.newClosure { closure with scope := other })
  newMethod : ∀ {k} name ref, Paired (states k) (Run.newMethod name ref) (Run.newMethod name ref)
  write : ∀ {k} text, Paired (states k) (Run.write s text) (Run.write t text)
  drawNumber : ∀ {k}, Paired (states k) Run.drawNumber Run.drawNumber
  note : ∀ {k} level message, (∀ heap : Heap, message heap.unscoped = message heap) →
    Paired (states k) (Run.note s level message) (Run.note t level message)

section

variable {states : Nat → Machine → Machine → Prop} {looks binds : Nat → ScopeRef → ScopeRef → Prop}
  {visible : Text → Prop} {s t : Settings} {k : Nat}

namespace Correspondence

variable (alike : Correspondence states looks binds visible s t)
include alike

/-- What is seen of the machines is alike on both sides. -/
theorem seenAlike : SeenAlike (states k) where
  heap related := .of_unscoped (alike.heap related)
  changeItems := alike.changeItems
  newMethod := alike.newMethod
  drawNumber := alike.drawNumber

/-- Runs that go alike from a later stage on, which has been reached. -/
theorem atLater {x y : Run α} {k' : Nat} (later : k ≤ k') {m n : Machine} (related : states k' m n)
    (paired : Paired (states k') x y) : SameEnd (states k) (x m) (y n) :=
  (paired m n related).mono fun _ _ => alike.earlier later

/-- A new scope on each side corresponds to the other from then on. -/
theorem opening {a b : ScopeRef} (correspond : looks k a b) {f g : ScopeRef → Run α}
    (next : ∀ {k' c d}, k ≤ k' → binds k' c d → Paired (states k') (f c) (g d)) :
    Paired (states k) (Run.openScope a >>= f) (Run.openScope b >>= g) := by
  intro m n related
  -- the rest runs at the stage where the new scopes correspond
  obtain ⟨k', later, bound, opened⟩ := alike.openScope correspond related
  have ends := alike.atLater later opened (next later bound)
  exact ends

/-- A function that is stored has its counterpart, of which only the scope may be another one. -/
theorem stored {m n : Machine} (related : states k m n) (index : Nat) :
    m.heap.closures[index]? = none ∧ n.heap.closures[index]? = none ∨
      ∃ closure other k', m.heap.closures[index]? = some closure ∧
        n.heap.closures[index]? = some { closure with scope := other } ∧
        k ≤ k' ∧ states k' m n ∧ closure.NamesIn visible ∧ binds k' closure.scope other := by
  have same := congrArg (·.closures[index]?) (alike.heap related)
  simp only [Heap.unscoped, Array.getElem?_map] at same
  obtain ⟨k', later, still, bound⟩ := alike.closures related
  cases first : m.heap.closures[index]? with
  | none =>
    rw [first] at same
    exact .inl ⟨rfl, Option.map_eq_none_iff.1 same.symm⟩
  | some closure =>
    rw [first] at same
    obtain ⟨⟨name, params, body, other⟩, second, equal⟩ := Option.map_eq_some_iff.1 same.symm
    -- the heaps are the same but for the scopes, so the counterpart is there
    obtain ⟨names, correspond⟩ := bound first second
    obtain ⟨name', params', body', scope⟩ := closure
    obtain ⟨rfl, rfl, rfl, -⟩ := Closure.mk.injEq .. ▸ equal
    exact .inr ⟨_, other, k', rfl, second, later, still, names, correspond⟩

theorem callNative (name : String) (arity? : Option Nat) (args : List Value)
    {body body' : Run Value} (bodies : Paired (states k) body body') :
    Paired (states k) (Run.callNative s name arity? args body)
      (Run.callNative t name arity? args body') := by
  -- the number of arguments is checked first, and on both sides alike
  have noted := (alike.note 3 (fun _ => "call native " ++ name) fun _ => rfl).bind fun _ => bodies
  unfold Run.callNative
  split
  · split
    · exact (Paired.fail _).bind fun _ => noted
    · exact noted
  · exact noted

end Correspondence

/-! ### Evaluation -/

/-- Whatever holds visible names only is evaluated, executed or called alike in scopes that
correspond, as far as evaluation goes. -/
structure InStep (states : Nat → Machine → Machine → Prop)
    (looks binds : Nat → ScopeRef → ScopeRef → Prop) (visible : Text → Prop) (s t : Settings)
    (depth : Nat) : Prop where
  evaluate : ∀ {k a b node}, looks k a b → (∀ name ∈ node.names, visible name) →
    Paired (states k) (Run.evaluate s depth a node) (Run.evaluate t depth b node)
  execute : ∀ {k a b node}, binds k a b → (∀ name ∈ node.names, visible name) →
    Paired (states k) (Run.execute s depth a node) (Run.execute t depth b node)
  call : ∀ {k} function args description,
    Paired (states k) (Run.call s depth function args description)
      (Run.call t depth function args description)

variable {depth : Nat} {a b : ScopeRef}

namespace InStep

variable (inner : InStep states looks binds visible s t depth)
include inner

theorem evaluateAll (correspond : looks k a b) {nodes : List Node}
    (seen : ∀ name ∈ Tree.namesOfAll nodes, visible name) :
    Paired (states k) (nodes.mapM (Run.evaluate s depth a))
      (nodes.mapM (Run.evaluate t depth b)) := by
  apply Paired.mapM
  intro node member
  exact inner.evaluate correspond fun name isName =>
    seen name (Tree.names_subset_namesOfAll member isName)

theorem inOrder (correspond : binds k a b) {body : List Node}
    (seen : ∀ name ∈ Tree.namesOfAll body, visible name) :
    Paired (states k) (Run.inOrder (Run.execute s depth a) body)
      (Run.inOrder (Run.execute t depth b) body) := by
  apply Paired.inOrder
  intro node member
  exact inner.execute correspond fun name isName =>
    seen name (Tree.names_subset_namesOfAll member isName)

/-- An expression that may be left out, followed by something that always gives a value. -/
theorem optional (correspond : looks k a b) (expr : Option Node) (f : Value → α) (x : α) :
    (∀ name ∈ Tree.namesOfOptional expr, visible name) →
    Paired (states k)
      (match expr with
        | some expr => return f (← Run.evaluate s depth a expr)
        | none => return x)
      (match expr with
        | some expr => return f (← Run.evaluate t depth b expr)
        | none => return x) := by
  intro seen
  cases expr with
  | none => exact .pure x
  | some expr => exact (inner.evaluate correspond seen).bind fun value => .pure (f value)

end InStep

variable (alike : Correspondence states looks binds visible s t)
  (inner : InStep states looks binds visible s t depth)
include alike inner

theorem evaluate_paired {node : Node} (correspond : looks k a b)
    (seen : ∀ name ∈ node.names, visible name) :
    Paired (states k) (evaluate s (depth + 1) a node) (evaluate t (depth + 1) b node) := by
  cases node <;> simp only [Run.evaluate]
  all_goals simp only [Tree.names, List.forall_mem_cons, List.forall_mem_append] at seen
  case number value => exact (alike.seenAlike.compute fun _ => rfl).bind fun x => .pure _
  case text value => exact .pure _
  case identifier name => exact alike.readName correspond seen.1
  case binary op left right =>
    apply (inner.evaluate correspond seen.1).bind
    intro x
    apply (inner.evaluate correspond seen.2).bind
    intro y
    exact alike.seenAlike.compute fun same => Value.binary_alike same op x y
  case logical op left right =>
    apply (inner.evaluate correspond seen.1).bind
    intro x
    split
    · split
      · exact inner.evaluate correspond seen.2
      · exact .pure x
    · split
      · exact .pure x
      · exact inner.evaluate correspond seen.2
    · exact .fail _
  case unary op operand =>
    apply (inner.evaluate correspond seen).bind
    intro x
    exact alike.seenAlike.compute fun same => Value.unary_alike same op x
  case assignment target value =>
    apply (inner.evaluate correspond seen.2).bind
    intro x
    exact alike.assignName correspond seen.1 x
  case update op target =>
    apply (alike.readName correspond seen.1).bind
    intro old
    apply (alike.seenAlike.number old).bind
    intro x
    apply (alike.seenAlike.compute fun _ => rfl).bind
    intro y
    exact alike.assignName correspond seen.1 _
  case call callee args =>
    apply (inner.evaluate correspond seen.1).bind
    intro function
    apply (inner.evaluateAll correspond seen.2).bind
    intro values
    exact inner.call function values _
  case property object name =>
    exact (inner.evaluate correspond seen).bind fun x => alike.seenAlike.readMember x _
  case index object key =>
    apply (inner.evaluate correspond seen.1).bind
    intro target
    apply (inner.evaluate correspond seen.2).bind
    intro key
    exact alike.seenAlike.readMember target key
  case array elements =>
    exact (inner.evaluateAll correspond seen).bind fun items => alike.newArray _
  all_goals exact .fail _

theorem inBlock_paired (correspond : looks k a b) {body : List Node}
    (seen : ∀ name ∈ Tree.namesOfAll body, visible name) :
    Paired (states k) (inBlock (execute s depth) a body) (inBlock (execute t depth) b body) :=
  alike.opening correspond fun _ bound => inner.inOrder bound seen

theorem loop_paired (correspond : looks k a b) {test test' : Run Bool} {update update' : Run Unit}
    {body : List Node} (tests : Paired (states k) test test')
    (seen : ∀ name ∈ Tree.namesOfAll body, visible name)
    (updates : Paired (states k) update update') :
    Paired (states k) (loop s test (inBlock (execute s depth) a body) update)
      (loop t test' (inBlock (execute t depth) b body) update') := by
  unfold loop
  rw [alike.patience]
  exact .rounds _ (.loopRound tests (inBlock_paired alike inner correspond seen) updates)

theorem declaration_paired (correspond : binds k a b) {name : Text} {init : Option Node}
    (isSeen : visible name) (seen : ∀ name ∈ Tree.namesOfOptional init, visible name) :
    Paired (states k) (execute s (depth + 1) a (.declaration name init))
      (execute t (depth + 1) b (.declaration name init)) := by
  -- with or without an initial value, the name is declared and that is logged
  have declared (value : Value) :=
    (alike.declareName correspond isSeen value).bind fun _ =>
      (alike.note 2 (fun heap => "declare " ++ name ++ " = " ++ value.toText heap)
        fun heap => by rw [value.toText_alike heap.alike_unscoped]).bind
        fun _ => Paired.pure Signal.normal
  simp only [Run.execute]
  cases init with
  | none => exact declared .undefined
  | some expr => exact (inner.evaluate (alike.looksOfBinds correspond) seen).bind declared

theorem execute_paired {node : Node} (correspond : binds k a b)
    (seen : ∀ name ∈ node.names, visible name) :
    Paired (states k) (execute s (depth + 1) a node) (execute t (depth + 1) b node) := by
  have reads := alike.looksOfBinds correspond
  cases node
  all_goals simp only [Tree.names, List.forall_mem_cons, List.forall_mem_append] at seen
  case declaration name init => exact declaration_paired alike inner correspond seen.1 seen.2
  all_goals simp only [Run.execute]
  case statement expr => exact (inner.evaluate reads seen).bind fun _ => .pure _
  case function name params body =>
    -- the two functions differ in the scopes that they close over
    apply (@alike.newClosure k ⟨name, params, body, a⟩ b correspond seen.2).bind
    intro value
    apply (alike.declareName correspond seen.1 value).bind
    intro _
    exact (alike.note 2 _ fun _ => rfl).bind fun _ => .pure _
  case block body => exact inBlock_paired alike inner reads seen
  case conditional test consequent alternate =>
    apply (inner.evaluate reads seen.1).bind
    intro value
    apply (alike.note 3 _ fun heap => by simp only [Value.toText_alike heap.alike_unscoped]).bind
    intro _
    split
    · exact inBlock_paired alike inner reads seen.2.1
    · cases alternate with
      | none => exact .pure _
      | some node => exact inner.execute correspond seen.2.2
  case whileLoop test body =>
    refine loop_paired alike inner reads ?_ seen.2 (.pure _)
    exact inner.optional reads (some test) Value.isTruthy true seen.1
  case forLoop init test update body =>
    obtain ⟨inInit, inTest, inUpdate, inBody⟩ := seen
    apply alike.opening reads
    intro k' c d _ bound
    have within := alike.looksOfBinds bound
    -- the loop itself is the same after all three ways to start
    have rounds := loop_paired alike inner within
      (inner.optional within test Value.isTruthy true inTest) inBody
      (inner.optional within update (fun _ => ()) () inUpdate)
    split
    · exact rounds
    · exact (inner.execute bound inInit).bind fun _ => rounds
    · exact (inner.evaluate within inInit).bind fun _ => rounds
  case returning argument =>
    cases argument with
    | none => exact .pure _
    | some expr => exact (inner.evaluate reads seen).bind fun value => .pure _
  case breakJump | continueJump => exact .pure _
  all_goals exact .fail _

theorem call_paired (function : Value) (args : List Value) (description : Text) :
    Paired (states k) (call s (depth + 1) function args description)
      (call t (depth + 1) function args description) := by
  cases function <;> simp only [Run.call]
  case builtin function =>
    exact alike.callNative _ _ _ (alike.seenAlike.callBuiltin alike.write function args)
  case method stamp method receiver =>
    exact alike.callNative _ _ _ (alike.seenAlike.callMethod method receiver args)
  case closure ref =>
    intro m n related
    rw [get_bind, get_bind]
    -- nothing is known of the body but that its names are visible
    rcases alike.stored related ref.index with
      ⟨first, second⟩ | ⟨closure, other, k', first, second, later, still, ⟨params, body⟩, bound⟩
    · rw [first, second]
      exact .halt related
    rw [first, second]
    -- the scopes of the function correspond at a stage that was reached before
    refine alike.atLater later still ?_
    dsimp only
    split
    · exact .fail _
    apply (alike.note 3 _ fun heap => by rw [Value.argumentsText_alike heap.alike_unscoped]).bind
    intro _
    apply alike.opening (alike.looksOfBinds bound)
    intro k' c d _ inside
    refine (Paired.forM ?_).bind fun _ => ?_
    · intro binding member
      exact alike.declareName inside (params _ (List.of_mem_zip member).1) _
    · apply (inner.inOrder inside body).bind
      intro signal
      cases signal with
      | normal | returning => exact .pure _
      | breaking | continuing => exact .fail _
  all_goals exact .fail _

omit inner

/-- By induction on how deep evaluation may go. -/
theorem inStep (depth : Nat) : InStep states looks binds visible s t depth := by
  induction depth with
  | zero =>
    constructor
    · intro k a b node _ _
      rw [evaluate, evaluate]
      exact .fail _
    · intro k a b node _ _
      rw [execute, execute]
      exact .fail _
    · intro k function args description
      rw [call, call]
      exact .fail _
  | succ depth ih =>
    exact ⟨evaluate_paired alike ih, execute_paired alike ih, call_paired alike ih⟩

omit alike

end

/-! ### Machines with the same scopes and the same heap -/

/-- The operations of the machine keep the relation between two machines that are run with these
settings, as far as names are visible. Scopes, arrays and functions are the same on both sides. -/
structure Lockstep (S : Machine → Machine → Prop) (visible : Text → Prop) (s t : Settings) :
    Prop where
  patience : s.patience = t.patience
  heap : ∀ {m n}, S m n → m.heap = n.heap
  closures : ∀ {m n}, S m n → ∀ closure ∈ m.heap.closures, closure.NamesIn visible
  readName : ∀ scope name, visible name →
    Paired S (Run.readName scope name) (Run.readName scope name)
  assignName : ∀ scope name value, visible name →
    Paired S (Run.assignName scope name value) (Run.assignName scope name value)
  declareName : ∀ scope name value, visible name →
    Paired S (Run.declareName scope name value) (Run.declareName scope name value)
  openScope : ∀ parent, Paired S (Run.openScope parent) (Run.openScope parent)
  newArray : ∀ items, Paired S (Run.newArray items) (Run.newArray items)
  changeItems : ∀ ref f, Paired S (Run.changeItems ref f) (Run.changeItems ref f)
  newClosure : ∀ closure, closure.NamesIn visible →
    Paired S (Run.newClosure closure) (Run.newClosure closure)
  newMethod : ∀ name ref, Paired S (Run.newMethod name ref) (Run.newMethod name ref)
  write : ∀ text, Paired S (Run.write s text) (Run.write t text)
  drawNumber : Paired S Run.drawNumber Run.drawNumber
  note : ∀ level message, Paired S (Run.note s level message) (Run.note t level message)

variable {visible : Text → Prop} {s t : Settings}

/-- Each scope corresponds to itself, at every stage. -/
theorem Lockstep.correspondence (lockstep : Lockstep S visible s t) :
    Correspondence (fun _ => S) (fun _ => Eq) (fun _ => Eq) visible s t where
  patience := lockstep.patience
  earlier := fun _ _ _ related => related
  looksOfBinds := fun same => same
  heap := fun related => congrArg Heap.unscoped (lockstep.heap related)
  closures := by
    intro k m n related
    refine ⟨k, Nat.le_refl k, related, ?_⟩
    intro index closure other first second
    obtain rfl : closure = other := by
      rw [lockstep.heap related] at first
      exact Option.some.inj (first.symm.trans second)
    exact ⟨lockstep.closures related closure (Array.mem_of_getElem? first), rfl⟩
  readName := by
    rintro _ scope _ rfl name seen
    exact lockstep.readName scope name seen
  assignName := by
    rintro _ scope _ rfl name seen value
    exact lockstep.assignName scope name value seen
  declareName := by
    rintro _ scope _ rfl name seen value
    exact lockstep.declareName scope name value seen
  openScope := by
    rintro k scope _ rfl m n related
    obtain ⟨same, opened⟩ := (lockstep.openScope scope m n related).of_values
    exact ⟨k, Nat.le_refl k, same, opened⟩
  newArray := lockstep.newArray
  changeItems := lockstep.changeItems
  newClosure := by
    rintro _ closure _ rfl names
    exact lockstep.newClosure closure names
  newMethod := lockstep.newMethod
  write := lockstep.write
  drawNumber := lockstep.drawNumber
  note := fun level message _ => lockstep.note level message

theorem program_paired (lockstep : Lockstep S visible s t) (limit : Nat) (scope : ScopeRef)
    {body : List Node} (seen : ∀ name ∈ Tree.namesOfAll body, visible name) :
    Paired S (program s limit scope body) (program t limit scope body) := by
  unfold program
  apply (lockstep.note 1 _).bind
  intro _
  apply ((inStep lockstep.correspondence limit).inOrder (k := 0) rfl seen).bind
  intro signal
  cases signal with
  | breaking | continuing => exact .fail _
  | normal | returning => exact (lockstep.note 1 _).bind fun _ => .pure _

end Run

end YapLang
