import YapLang.Proofs.RunSteps

/-!
# What holds in every state that can be reached

Two consequences of the steps that runs are made of. First, scopes are lexical: however deep calls
are nested, a scope lies no deeper than the text of the program says. Second, the heap is in order
after any sequence of operations from outside: opening scopes, binding and reading names, creating
values, and running programs or parts of them, to the end or to a fault. The parts are what the
states inside of a run are made of, so these are covered as well.
-/
namespace YapLang

open Machine

namespace Run

theorem Leads.final {α : Type} {room : LowerSet ℕ} {settings : Settings} {m : Machine} {x : Run α}
    {Q : α → Machine → Prop} (leads : Leads room settings x m Q) :
    Steps room settings m (final x m) := by
  unfold Leads at leads
  unfold Run.final
  cases outcome : x m with
  | ok a m' =>
    rw [outcome] at leads
    exact leads.1
  | error halt m' =>
    rw [outcome] at leads
    exact leads

end Run

/-! ### The start -/

namespace Machine

variable {bindings : Bindings} {draws : Nat → Float} {room : LowerSet ℕ}

theorem wellFormed_start (plain : ∀ binding ∈ bindings, binding.2.IsPlain) :
    (start bindings draws).WellFormed where
  ordered := Scopes.ordered_single bindings
  captured closure member := by simp [start, Heap.empty] at member
  bindings ref name value bound := (plain _ (Scopes.mem_of_own?_single bound)).holds
  items ref value member := by simp [start, Heap.empty, Heap.items] at member

theorem plain_builtins : ∀ binding ∈ builtins, binding.2.IsPlain := by
  simp [builtins, Value.IsPlain]

theorem height_globalScope : (start bindings draws).scopes.height globalScope = 1 := by
  apply Scopes.height_of_outermost (Scopes.ordered_single bindings)
  rfl

theorem sound_start (plain : ∀ binding ∈ bindings, binding.2.IsPlain) (isIn : 1 ∈ room) :
    (start bindings draws).Sound room where
  toWellFormed := wellFormed_start plain
  heights ref isThere := by
    -- there is one scope, the global one
    obtain rfl : ref = globalScope := by
      obtain ⟨index⟩ := ref
      simp only [HasScope, start, Scopes.single, List.size_toArray, List.length_singleton]
        at isThere
      exact congrArg ScopeRef.mk (by omega)
    rw [height_globalScope]
    exact isIn
  bodies closure member := by simp [start, Heap.empty] at member

end Machine

/-! ### Scopes are lexical -/

namespace Run

/-- The text bounds the chains of scopes. In a run of a program, of any length, no scope is created
whose way outward is longer than the nesting of scopes in the text, the global scope added. Scopes
are never removed, so the scopes of the last state are all that there have been. -/
theorem chain_within_nesting (body : List Node) (settings : Settings) (limit : Nat)
    (draws : Nat → Float) (ref : ScopeRef)
    (created : (final (program settings limit globalScope body)
      (start builtins draws)).HasScope ref) :
    ∃ way, (final (program settings limit globalScope body)
        (start builtins draws)).scopes.IsChain ref way ∧
      way.length ≤ 1 + Tree.nestingOfAll body := by
  have sound : (start builtins draws).Sound (LowerSet.Iic (1 + Tree.nestingOfAll body)) :=
    sound_start plain_builtins (LowerSet.mem_Iic_iff.2 (Nat.le_add_right _ _))
  have fits : (start builtins draws).Fits (LowerSet.Iic (1 + Tree.nestingOfAll body)) globalScope
      (Tree.nestingOfAll body) := by
    constructor
    · exact Nat.zero_lt_one
    · rw [height_globalScope]
      exact LowerSet.mem_Iic_iff.2 (Nat.le_refl _)
  -- every state on the way is sound, the last one too
  have last := (program_stepwise settings limit sound fits).final.sound sound
  refine ⟨_, Scopes.isChain_chain last.ordered ref, ?_⟩
  exact LowerSet.mem_Iic_iff.1 (last.heights ref created)

/-- A function that calls itself from inside a block: the third scope is that of the block, and none
lies deeper, though a second call is made from there. -/
theorem chain_within_nesting_recursion :
    let body : List Node :=
      [.function "f" ["n"]
          [.conditional (.identifier "n")
            [.statement (.call (.identifier "f") [.identifier "false"])] none],
        .statement (.call (.identifier "f") [.identifier "true"])]
    let last := final (program ⟨0, 10, .memory⟩ 10 globalScope body) (start builtins fun _ => 0)
    last.HasScope ⟨2⟩ ∧ last.scopes.all.size = 4 ∧
      ∃ way, last.scopes.IsChain ⟨2⟩ way ∧ way.length ≤ 1 + 2 := by
  intro body last
  have created : last.HasScope ⟨2⟩ := by
    unfold HasScope
    decide +kernel
  exact ⟨created, by decide +kernel, chain_within_nesting body ⟨0, 10, .memory⟩ 10 0 ⟨2⟩ created⟩

end Run

/-! ### Operations from outside -/

/-- What can be done to a machine from outside. Besides whole programs, each part of a run is an
operation, so that all states inside of a run lie between operations. -/
inductive Operation where
  | child (parent : ScopeRef)
  | declare (scope : ScopeRef) (name : Text) (value : Value)
  | assign (scope : ScopeRef) (name : Text) (value : Value)
  | read (scope : ScopeRef) (name : Text)
  | newArray (items : Array Value)
  | newFunction (closure : Closure)
  | run (limit : Nat) (scope : ScopeRef) (body : List Node)
  | evaluate (depth : Nat) (scope : ScopeRef) (expr : Node)
  | execute (depth : Nat) (scope : ScopeRef) (statement : Node)
  | call (depth : Nat) (function : Value) (args : List Value) (description : Text)

namespace Operation

/-- The operation names scopes and values that are there. -/
def Possible (m : Machine) : Operation → Prop
  | child scope | read scope _ | run _ scope _ | evaluate _ scope _ | execute _ scope _ =>
    m.HasScope scope
  | declare scope _ value | assign scope _ value => m.HasScope scope ∧ m.Holds value
  | newArray items => ∀ value ∈ items, m.Holds value
  | newFunction closure => m.HasScope closure.scope
  | call _ function args _ => m.Holds function ∧ ∀ value ∈ args, m.Holds value

/-- The state after the operation, whether it succeeds or fails. -/
def perform (settings : Settings) (m : Machine) : Operation → Machine
  | child parent => Run.final (Run.openScope parent) m
  | declare scope name value => Run.final (Run.declareName scope name value) m
  | assign scope name value => Run.final (Run.assignName scope name value) m
  | read scope name => Run.final (Run.readName scope name) m
  | newArray items => Run.final (Run.newArray items) m
  | newFunction closure => Run.final (Run.newClosure closure) m
  | run limit scope body => Run.final (Run.program settings limit scope body) m
  | evaluate depth scope expr => Run.final (Run.evaluate settings depth scope expr) m
  | execute depth scope statement => Run.final (Run.execute settings depth scope statement) m
  | call depth function args description =>
    Run.final (Run.call settings depth function args description) m

end Operation

namespace Machine

/-- Where there is no limit, there is room for everything. -/
theorem fits_top {m : Machine} {scope : ScopeRef} (isThere : m.HasScope scope) (depth : Nat) :
    m.Fits ⊤ scope depth :=
  ⟨isThere, trivial⟩

theorem WellFormed.sound {m : Machine} (wellFormed : m.WellFormed) : m.Sound ⊤ where
  toWellFormed := wellFormed
  heights _ _ := trivial
  bodies closure member := fits_top (wellFormed.captured closure member) _

end Machine

/-- Every operation is made of steps. -/
theorem Operation.steps {m : Machine} {op : Operation} (wellFormed : m.WellFormed)
    (possible : op.Possible m) (settings : Settings) :
    Steps ⊤ settings m (op.perform settings m) := by
  have sound := wellFormed.sound
  cases op with
  | child parent => exact (Run.openScope_leads sound (fits_top possible (1 + 0))).final
  | declare scope name value => exact (Run.declareName_leads possible.2 scope name).final
  | assign scope name value => exact (Run.assignName_gives possible.2 scope name).final
  | read scope name => exact (Run.readName_gives sound scope name).final
  | newArray items => exact (Run.newArray_gives possible).final
  | newFunction closure => exact (Run.newClosure_gives (fits_top possible _)).final
  | run limit scope body =>
    exact (Run.program_stepwise settings limit sound (fits_top possible _)).final
  | evaluate depth scope expr =>
    exact ((Run.stepwise ⊤ settings depth).evaluate expr sound possible).final
  | execute depth scope statement =>
    exact ((Run.stepwise ⊤ settings depth).execute sound (fits_top possible _)).final
  | call depth function args description =>
    exact ((Run.stepwise ⊤ settings depth).call description sound possible.1 possible.2).final

/-! ### The heap is in order -/

namespace Machine

/-- An operation leads from one state to the next, where messages up to a level are logged. -/
def Follows (verbosity : Nat) (m m' : Machine) : Prop :=
  ∃ (settings : Settings) (op : Operation),
    verbosity ≤ settings.verbosity ∧ op.Possible m ∧ m' = op.perform settings m

/-- Any number of operations lead from one state to a later one. -/
abbrev Later (verbosity : Nat) : Machine → Machine → Prop :=
  Relation.ReflTransGen (Follows verbosity)

/-- The states that operations lead to from the start, with or without the built-in values. -/
inductive Reached : Machine → Prop where
  | fresh {draws} : Reached (start builtins draws)
  | bare {draws} : Reached (start [] draws)
  | next {m m'} : Reached m → Follows 0 m m' → Reached m'

variable {verbosity : Nat} {m m' : Machine}

theorem Follows.wellFormed (follows : Follows verbosity m m') (wellFormed : m.WellFormed) :
    m'.WellFormed := by
  obtain ⟨settings, op, _, possible, rfl⟩ := follows
  exact ((op.steps wellFormed possible settings).sound wellFormed.sound).toWellFormed

theorem Follows.grows (follows : Follows verbosity m m') (wellFormed : m.WellFormed) :
    Grows m m' := by
  obtain ⟨settings, op, _, possible, rfl⟩ := follows
  exact (op.steps wellFormed possible settings).grows

theorem Follows.changed (follows : Follows verbosity m m') (wellFormed : m.WellFormed) :
    ∃ changes, Changed verbosity changes m m' := by
  obtain ⟨settings, op, atLeast, possible, rfl⟩ := follows
  obtain ⟨changes, changed⟩ := (op.steps wellFormed possible settings).changed
  exact ⟨changes, changed.mono atLeast⟩

theorem Reached.wellFormed (reached : m.Reached) : m.WellFormed := by
  induction reached with
  | fresh => exact wellFormed_start plain_builtins
  | bare => exact wellFormed_start (by simp)
  | next _ follows ih => exact follows.wellFormed ih

/-- From a well-formed state, all later ones are well formed, hold what was there, and differ in the
items of arrays by changes alone. -/
theorem Later.keeps (later : Later verbosity m m') (wellFormed : m.WellFormed) :
    m'.WellFormed ∧ Grows m m' ∧ ∃ changes, Changed verbosity changes m m' := by
  induction later with
  | refl => exact ⟨wellFormed, .refl m, [], .nothing (fun _ _ => rfl) rfl⟩
  | tail _ follows ih =>
    obtain ⟨midWellFormed, grown, first, begun⟩ := ih
    obtain ⟨second, ended⟩ := follows.changed midWellFormed
    refine ⟨follows.wellFormed midWellFormed, grown.trans (follows.grows midWellFormed), ?_⟩
    exact ⟨first ++ second, begun.trans ended grown⟩

end Machine

namespace Run

theorem bind_eq_ok {α β : Type} {x : Run α} {f : α → Run β} {m m' : Machine} {b : β}
    (outcome : (x >>= f) m = .ok b m') :
    ∃ a mid, x m = .ok a mid ∧ f a mid = .ok b m' := by
  change EStateM.bind x f m = .ok b m' at outcome
  unfold EStateM.bind at outcome
  cases first : x m with
  | error halt mid =>
    rw [first] at outcome
    cases outcome
  | ok a mid =>
    rw [first] at outcome
    exact ⟨a, mid, rfl, outcome⟩

/-- The array of a literal is created when its elements are evaluated, in a state where nothing can
refer to it. -/
theorem evaluate_array_eq_ok {m m' : Machine} {settings : Settings} {depth : Nat} {scope : ScopeRef}
    {elements : List Node} {value : Value} (wellFormed : m.WellFormed) (isThere : m.HasScope scope)
    (outcome : evaluate settings depth scope (.array elements) m = .ok value m') :
    ∃ ref items mid, value = .array ref ∧ Grows m mid ∧ mid.WellFormed ∧ ¬mid.HasArray ref ∧
      m' = { mid with heap := { mid.heap with arrays := mid.heap.arrays.push items } } := by
  cases depth with
  | zero =>
    rw [evaluate] at outcome
    cases outcome
  | succ depth =>
    simp only [Run.evaluate] at outcome
    obtain ⟨items, mid, evaluated, created⟩ := bind_eq_ok outcome
    have leads := (stepwise ⊤ settings depth).evaluateAll elements wellFormed.sound isThere
    rw [Leads, evaluated] at leads
    cases created
    refine ⟨_, items.toArray, mid, rfl, leads.1.grows, ?_, Nat.lt_irrefl _, rfl⟩
    exact (leads.1.sound wellFormed.sound).toWellFormed

end Run

namespace Machine

end Machine

end YapLang
