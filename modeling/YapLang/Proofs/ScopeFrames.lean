import YapLang.Proofs.ProperTrees
import YapLang.Proofs.RunLogic

/-!
# What a run may bind

Scopes are only ever added, and a scope keeps its parent and its names. Two things bind a name: a
declaration, in the scope in which it is executed, and a call, in the scope that it has just
created. So whatever an expression, a call or a statement other than a declaration does, no scope
that existed before has gained or lost a name, and a declaration adds its own name to its own scope
at most. This holds at every end of a run, also when it halts in the middle of a statement.
-/
namespace YapLang

namespace Scopes

/-- The scopes that existed before are still there, inside the same scopes and with the same names,
except that names may have come where that is allowed. -/
structure Extends (allowed : ScopeRef → Text → Prop) (before after : Scopes) : Prop where
  grown : before.all.size ≤ after.all.size
  parents : ∀ ref, ref.index < before.all.size → after.parent? ref = before.parent? ref
  kept : ∀ ref, ref.index < before.all.size → ∀ x,
    (before.own? x ref).isSome → (after.own? x ref).isSome
  names : ∀ ref, ref.index < before.all.size → ∀ x, ¬allowed ref x →
    ((after.own? x ref).isSome ↔ (before.own? x ref).isSome)

/-- No scope that existed before has gained or lost a name. -/
abbrev SameNames : Scopes → Scopes → Prop :=
  Extends fun _ _ => False

theorem declare_of_not_created {scopes : Scopes} {name : Text} {value : Value} {target : ScopeRef}
    (missing : ¬target.index < scopes.all.size) : scopes.declare name value target = scopes := by
  obtain ⟨all⟩ := scopes
  simp only [declare, Scopes.mk.injEq]
  refine Array.ext_getElem? fun i => ?_
  rw [Array.getElem?_modify]
  split
  next same =>
    rw [same] at missing
    simp [Array.getElem?_eq_none (Nat.le_of_not_lt missing)]
  · rfl

namespace Extends

variable {allowed : ScopeRef → Text → Prop} {before after : Scopes}

theorem refl (scopes : Scopes) : Extends allowed scopes scopes where
  grown := Nat.le_refl _
  parents _ _ := rfl
  kept _ _ _ bound := bound
  names _ _ _ _ := Iff.rfl

theorem child (extended : Extends allowed before after) (parent : ScopeRef) :
    Extends allowed before (after.child parent) := by
  have created {ref : ScopeRef} (existed : ref.index < before.all.size) :
      ref.index < after.all.size := Nat.lt_of_lt_of_le existed extended.grown
  refine ⟨?_, fun ref existed => ?_, fun ref existed x bound => ?_, fun ref existed x fixed => ?_⟩
  · have grown := extended.grown
    simp only [Scopes.child, Array.size_push]
    omega
  · rw [parent?_child after ref parent (created existed)]
    exact extended.parents ref existed
  · rw [own?_child after x ref parent (created existed)]
    exact extended.kept ref existed x bound
  · rw [own?_child after x ref parent (created existed)]
    exact extended.names ref existed x fixed

/-- A declaration binds in a scope that did not exist before, binds a name that was bound already,
or binds where it is allowed to. -/
theorem declare (extended : Extends allowed before after) {name : Text} (value : Value)
    {target : ScopeRef}
    (may : target.index < before.all.size → (after.own? name target).isSome ∨ allowed target name) :
    Extends allowed before (after.declare name value target) := by
  by_cases created : target.index < after.all.size
  · have bound (ref : ScopeRef) (x : Text) : ((after.declare name value target).own? x ref).isSome ↔
        (target = ref ∧ name = x) ∨ (after.own? x ref).isSome := by
      rw [own?_declare after name x value target ref created]
      by_cases same : target = ref ∧ name = x <;> simp [same]
    refine ⟨?_, fun ref existed => ?_, fun ref existed x held => ?_, fun ref existed x fixed => ?_⟩
    · simpa [Scopes.declare] using extended.grown
    · rw [parent?_declare]
      exact extended.parents ref existed
    · exact (bound ref x).2 (.inr (extended.kept ref existed x held))
    · rw [bound ref x, ← extended.names ref existed x fixed]
      refine ⟨?_, .inr⟩
      -- where the name may not come, it was bound already
      rintro (⟨rfl, rfl⟩ | held)
      · exact (may existed).resolve_right fixed
      · exact held
  · rw [declare_of_not_created created]
    exact extended

end Extends

end Scopes

namespace Node

/-- The name that a statement declares in the scope in which it is executed. -/
def declared? : Node → Option Text
  | .declaration name _ | .function name _ _ => some name
  | _ => none

/-- The statement declares nothing in the scope in which it is executed. The alternative of a
conditional statement is executed in the scope of the statement itself. -/
def Settled : Node → Prop
  | .declaration .. | .function .. => False
  | .conditional _ _ (some alternate) => Settled alternate
  | _ => True

theorem ProperStatement.settled {inLoop : Bool} {s : Node} (proper : ProperStatement inLoop s)
    (silent : s.declared? = none) : s.Settled := by
  induction proper with
  | declaration | function => cases silent
  | @conditional inLoop test consequent alternate _ _ _ alternatives _ ih =>
    cases alternate with
    | none => trivial
    | some s =>
      -- what follows `else` is a block or a conditional statement, and neither declares
      have isAlternative := alternatives s rfl
      refine ih s rfl ?_
      cases s <;> first | rfl | cases isAlternative
  | _ => trivial

theorem ProperExpression.settled {e : Node} (proper : ProperExpression e) : e.Settled := by
  cases proper <;> trivial

end Node

namespace Run

/-! ### Steps -/

/-- The scopes of a state extend those of an earlier one. -/
def Framed (allowed : ScopeRef → Text → Prop) (before after : Machine) : Prop :=
  Scopes.Extends allowed before.scopes after.scopes

/-- The run keeps a property of the state, however it ends. -/
def Keeps {α : Type} (I : Machine → Prop) (x : Run α) : Prop :=
  Ensures I x (fun _ => True) fun _ => True

theorem Ensures.keeps {α : Type} {I : Machine → Prop} {x : Run α} {Q : α → Prop} {E : Halt → Prop}
    (ensures : Ensures I x Q E) : Keeps I x :=
  ensures.mono (fun _ _ => trivial) fun _ _ => trivial

section

variable {allowed : ScopeRef → Text → Prop} {before : Machine}

theorem stable_framed : Stable (Framed allowed before) := by
  intro m m' scopes _ framed
  unfold Framed
  rw [scopes]
  exact framed

/-- A scope that is opened now did not exist before. -/
theorem openScope_framed {E : Halt → Prop} (parent : ScopeRef) :
    Ensures (Framed allowed before) (openScope parent)
      (fun ref => before.scopes.all.size ≤ ref.index) E :=
  .modifyGet fun _ framed => ⟨framed.grown, framed.child parent⟩

theorem assignName_framed (scope : ScopeRef) (name : Text) (value : Value) :
    Keeps (Framed allowed before) (assignName scope name value) :=
  (ensures_assignName scope name value fun _ _ framed bound =>
    framed.declare value fun _ => .inl bound).keeps

theorem declareName_framed {scope : ScopeRef} {name : Text} (value : Value)
    (may : scope.index < before.scopes.all.size → allowed scope name) :
    Keeps (Framed allowed before) (declareName scope name value) :=
  .changing trivial fun _ framed => framed.declare value fun existed => .inr (may existed)

theorem newClosure_framed (closure : Closure) :
    Keeps (Framed allowed before) (newClosure closure) :=
  .modifyGet fun _ framed => ⟨trivial, framed⟩

/-! ### Evaluation -/

variable (settings : Settings) (depth : Nat)

/-- What evaluation does to the scopes, as far as it goes: expressions and calls bind nothing in
earlier scopes, and statements do so neither, unless they are declarations. -/
structure Frames (allowed : ScopeRef → Text → Prop) (before : Machine) : Prop where
  evaluate : ∀ scope node, Keeps (Framed allowed before) (evaluate settings depth scope node)
  execute : ∀ scope node, before.scopes.all.size ≤ scope.index ∨ node.Settled →
    Keeps (Framed allowed before) (execute settings depth scope node)
  call : ∀ function args description,
    Keeps (Framed allowed before) (call settings depth function args description)

theorem evaluate_framed {settings : Settings} {depth : Nat}
    (inner : Frames settings depth allowed before) (scope : ScopeRef) (node : Node) :
    Keeps (Framed allowed before) (evaluate settings (depth + 1) scope node) := by
  have eval := inner.evaluate scope
  -- only assignments and updates touch a scope, and what they bind is bound already
  cases node <;> simp only [Run.evaluate]
  case number value =>
    exact (Ensures.compute (fun _ _ _ _ => trivial) fun _ _ _ _ => trivial).bind
      fun _ _ => .pure trivial
  case text value => exact .pure trivial
  case identifier name => exact (ensures_readName scope name).keeps
  case binary op left right =>
    refine (eval left).bind fun a _ => (eval right).bind fun b _ => ?_
    exact .compute (fun _ _ _ _ => trivial) fun _ _ _ _ => trivial
  case logical op left right =>
    refine (eval left).bind fun a _ => ?_
    split
    · exact .ite (fun _ => eval right) fun _ => .pure trivial
    · exact .ite (fun _ => .pure trivial) fun _ => eval right
    · exact .fail trivial
  case unary op operand =>
    refine (eval operand).bind fun a _ => ?_
    exact .compute (fun _ _ _ _ => trivial) fun _ _ _ _ => trivial
  case assignment target value =>
    exact (eval value).bind fun a _ => assignName_framed scope target a
  case update op target =>
    refine (ensures_readName scope target).keeps.bind fun old _ => ?_
    refine (ensures_number old).keeps.bind fun x _ => ?_
    refine Ensures.bind (Q := fun _ => True)
      (.compute (fun _ _ _ _ => trivial) fun _ _ _ _ => trivial) fun y _ => ?_
    exact assignName_framed scope target _
  case call callee args =>
    refine (eval callee).bind fun function _ => ?_
    refine (Ensures.mapM fun arg _ => eval arg).bind fun values _ => ?_
    exact inner.call function values _
  case property object name =>
    exact (eval object).bind fun target _ => (ensures_readMember stable_framed target _).keeps
  case index object key =>
    refine (eval object).bind fun target _ => (eval key).bind fun key _ => ?_
    exact (ensures_readMember stable_framed target key).keeps
  case array elements =>
    refine (Ensures.mapM fun element _ => eval element).bind fun items _ => ?_
    exact ensures_newArray stable_framed _
  all_goals exact .fail trivial

/-- A block binds in its own new scope, whatever it holds. -/
theorem inBlock_framed {settings : Settings} {depth : Nat}
    (inner : Frames settings depth allowed before) (scope : ScopeRef) (body : List Node) :
    Keeps (Framed allowed before) (inBlock (execute settings depth) scope body) :=
  .inBlock trivial (openScope_framed scope) fun inside isNew node _ =>
    inner.execute inside node (.inl isNew)

theorem loop_framed {test : Run Bool} {body : Run Signal} {update : Run Unit}
    (tests : Keeps (Framed allowed before) test) (bodies : Keeps (Framed allowed before) body)
    (updates : Keeps (Framed allowed before) update) :
    Keeps (Framed allowed before) (loop settings test body update) :=
  (Ensures.loop trivial tests bodies updates).keeps

theorem forRounds_framed {settings : Settings} {depth : Nat}
    (inner : Frames settings depth allowed before) (scope : ScopeRef) (test update : Option Node)
    (body : List Node) :
    Keeps (Framed allowed before) (loop settings
      (match test with
        | some expr => return (← evaluate settings depth scope expr).isTruthy
        | none => return true)
      (inBlock (execute settings depth) scope body)
      (match update with
        | some expr => do let _ ← evaluate settings depth scope expr
        | none => pure ())) := by
  refine loop_framed settings ?_ (inBlock_framed inner scope body) ?_
  · split
    · exact (inner.evaluate scope _).bind fun _ _ => .pure trivial
    · exact .pure trivial
  · split
    · exact (inner.evaluate scope _).bind fun _ _ => .pure trivial
    · exact .pure trivial

theorem declaration_framed {settings : Settings} {depth : Nat}
    (inner : Frames settings depth allowed before) {scope : ScopeRef} {name : Text}
    (init : Option Node) (may : scope.index < before.scopes.all.size → allowed scope name) :
    Keeps (Framed allowed before)
      (execute settings (depth + 1) scope (.declaration name init)) := by
  have declared (value : Value) : Keeps (Framed allowed before) (do
      declareName scope name value
      note settings 2 fun heap => "declare " ++ name ++ " = " ++ value.toText heap
      return Signal.normal) := by
    refine (declareName_framed value may).bind fun _ _ => ?_
    exact (ensures_note stable_framed settings _ _).bind fun _ _ => .pure trivial
  simp only [Run.execute]
  split
  · exact (inner.evaluate scope _).bind fun value _ => declared value
  · exact declared .undefined

theorem function_framed {scope : ScopeRef} {name : Text} (params : List Text)
    (body : List Node) (may : scope.index < before.scopes.all.size → allowed scope name) :
    Keeps (Framed allowed before)
      (execute settings (depth + 1) scope (.function name params body)) := by
  simp only [Run.execute]
  refine (newClosure_framed _).bind fun value _ => ?_
  refine (declareName_framed value may).bind fun _ _ => ?_
  exact (ensures_note stable_framed settings _ _).bind fun _ _ => .pure trivial

theorem execute_framed {settings : Settings} {depth : Nat}
    (inner : Frames settings depth allowed before) (scope : ScopeRef) (node : Node)
    (contained : before.scopes.all.size ≤ scope.index ∨ node.Settled) :
    Keeps (Framed allowed before) (execute settings (depth + 1) scope node) := by
  have eval := inner.evaluate
  have blocks := inBlock_framed inner
  -- a scope that is new may be given any name
  have isNew : node.declared?.isSome → before.scopes.all.size ≤ scope.index := by
    intro declares
    refine contained.resolve_right fun settled => ?_
    cases node <;> first | exact settled | cases declares
  cases node
  case declaration name init =>
    exact declaration_framed inner init fun existed => absurd (isNew rfl) (by omega)
  case function name params body =>
    exact function_framed settings depth params body fun existed => absurd (isNew rfl) (by omega)
  all_goals simp only [Run.execute]
  case statement expr => exact (eval scope expr).bind fun _ _ => .pure trivial
  case block body => exact blocks scope body
  case conditional test consequent alternate =>
    refine (eval scope test).bind fun value _ => ?_
    refine (ensures_note stable_framed settings _ _).bind fun _ _ => ?_
    refine .ite (fun _ => blocks scope consequent) fun _ => ?_
    cases alternate with
    | some node => exact inner.execute scope node contained
    | none => exact .pure trivial
  case whileLoop test body =>
    refine loop_framed settings ?_ (blocks scope body) (.pure trivial)
    exact (eval scope test).bind fun _ _ => .pure trivial
  case forLoop init test update body =>
    -- what the header declares comes into the scope that the loop opens
    refine (openScope_framed scope).bind fun inside insideIsNew => ?_
    have rounds := forRounds_framed inner inside test update body
    split
    · exact rounds
    · exact (inner.execute inside _ (.inl insideIsNew)).bind fun _ _ => rounds
    · exact (eval inside _).bind fun _ _ => rounds
  case returning argument =>
    split
    · exact (eval scope _).bind fun _ _ => .pure trivial
    · exact .pure trivial
  case breakJump | continueJump => exact .pure trivial
  all_goals exact .fail trivial

/-- The parameters of a function are bound in the scope that the call has created. -/
theorem call_framed {settings : Settings} {depth : Nat}
    (inner : Frames settings depth allowed before) (function : Value) (args : List Value)
    (description : Text) :
    Keeps (Framed allowed before) (call settings (depth + 1) function args description) := by
  cases function <;> simp only [Run.call]
  case builtin function =>
    exact (ensures_callNative stable_framed settings _ _ args
      (ensures_callBuiltin stable_framed settings function args)).keeps
  case method stamp method receiver =>
    refine (ensures_callNative stable_framed settings _ _ args ?_).keeps
    exact ensures_callMethod stable_framed method receiver args
  case closure ref =>
    refine Ensures.get.bind fun m _ => ?_
    split
    · exact .fail trivial
    next closure _ =>
      refine .ite (fun _ => .fail trivial) fun _ => ?_
      refine (ensures_note stable_framed settings _ _).bind fun _ _ => ?_
      -- wherever the function was declared, its call runs in a scope that is new
      refine (openScope_framed closure.scope).bind fun inside isNew => ?_
      refine (Ensures.forM fun binding _ => ?_).bind fun _ _ => ?_
      · exact declareName_framed _ fun existed => absurd isNew (by omega)
      refine Ensures.bind (Q := fun _ => True) ?_ fun signal _ => ?_
      · exact .inOrder trivial fun node _ => inner.execute inside node (.inl isNew)
      · cases signal <;> first | exact .pure trivial | exact .fail trivial
  all_goals exact .fail trivial

/-- By induction on how deep evaluation may go. -/
theorem frames (allowed : ScopeRef → Text → Prop) (before : Machine) :
    Frames settings depth allowed before := by
  induction depth with
  | zero =>
    refine ⟨fun scope node => ?_, fun scope node _ => ?_, fun function args description => ?_⟩
    · rw [evaluate]
      exact .fail trivial
    · rw [execute]
      exact .fail trivial
    · rw [call]
      exact .fail trivial
  | succ depth ih => exact ⟨evaluate_framed ih, execute_framed ih, call_framed ih⟩

end

/-! ### Whole runs -/

/-- The state in which a run ends, whether it gives a value or halts. -/
def final {α : Type} (x : Run α) (m : Machine) : Machine :=
  match x m with
  | .ok _ m' => m'
  | .error _ m' => m'

theorem Keeps.final {α : Type} {I : Machine → Prop} {x : Run α} {m : Machine} (keeps : Keeps I x)
    (holds : I m) : I (final x m) := by
  have kept := keeps m holds
  unfold Run.final
  cases outcome : x m with
  | ok a m' =>
    rw [outcome] at kept
    exact kept.2
  | error halt m' =>
    rw [outcome] at kept
    exact kept.2

theorem execute_extends {s : Node} (settings : Settings) (depth : Nat)
    (scope : ScopeRef) (m : Machine) {name : Text} (declares : s.declared? = some name) :
    Scopes.Extends (fun ref x => ref = scope ∧ x = name) m.scopes
      (final (execute settings depth scope s) m).scopes := by
  let allowed : ScopeRef → Text → Prop := fun ref x => ref = scope ∧ x = name
  -- the value is evaluated under the same permission, of which it makes no use
  suffices keeps : Keeps (Framed allowed m) (execute settings depth scope s) from
    keeps.final (Scopes.Extends.refl _)
  cases depth with
  | zero =>
    rw [execute]
    exact .fail trivial
  | succ depth =>
    cases s with
    | declaration name init =>
      cases declares
      exact declaration_framed (frames settings depth allowed m) init fun _ => ⟨rfl, rfl⟩
    | function name params body =>
      cases declares
      exact function_framed settings depth params body fun _ => ⟨rfl, rfl⟩
    | _ => cases declares

/-- Names do not leak between scopes. In every state, evaluating an expression, calling a value and
executing a statement of source text that is not a declaration leave the names of all scopes as they
are, however the run ends. A declaration adds its name to the scope that it is executed in at
most. -/
theorem names_never_leak [CharacterNames] (source : String) (tree : Node)
    (parsed : Node.ofSource source = .ok tree) (settings : Settings) (depth : Nat)
    (scope : ScopeRef) (m : Machine) :
    (∀ expr, Scopes.SameNames m.scopes (final (evaluate settings depth scope expr) m).scopes) ∧
    (∀ function args description,
      Scopes.SameNames m.scopes (final (call settings depth function args description) m).scopes) ∧
    ∀ s : Node, tree.Occurs s →
      (s.declared? = none →
        Scopes.SameNames m.scopes (final (execute settings depth scope s) m).scopes) ∧
      ∀ name, s.declared? = some name →
        Scopes.Extends (fun ref x => ref = scope ∧ x = name) m.scopes
          (final (execute settings depth scope s) m).scopes := by
  have steps := frames settings depth (fun _ _ => False) m
  have unchanged : Framed (fun _ _ => False) m m := Scopes.Extends.refl _
  refine ⟨fun expr => ?_, fun function args description => ?_, fun s occurs => ⟨?_, ?_⟩⟩
  · exact (steps.evaluate scope expr).final unchanged
  · exact (steps.call function args description).final unchanged
  · intro silent
    -- the condition on statements is the one that source text guarantees
    have settled : s.Settled := by
      rcases Node.proper_of_occurs parsed occurs with rfl | expression | ⟨inLoop, statement⟩
      · obtain ⟨body, rfl, _⟩ := Node.proper_of_ofSource parsed
        trivial
      · exact expression.settled
      · exact statement.settled silent
    exact (steps.execute scope s (.inr settled)).final unchanged
  · intro name declares
    exact execute_extends settings depth scope m declares

/-- The body of a conditional statement declares a name, but not in the scope around it. -/
theorem names_never_leak_conditional :
    let _ : CharacterNames := .none
    Node.ofSource "if (true) \x7b let a = true; \x7d" =
      .ok (.program [.conditional (.identifier "true")
        [.declaration "a" (some (.identifier "true"))] none]) ∧
    Scopes.SameNames (Scopes.single Machine.builtins)
      (final (execute ⟨0, 10, .memory⟩ 10 Machine.globalScope
        (.conditional (.identifier "true") [.declaration "a" (some (.identifier "true"))] none))
        (Machine.start Machine.builtins fun _ => 0)).scopes := by
  intro names
  have parsed : Node.ofSource "if (true) \x7b let a = true; \x7d" =
      .ok (.program [.conditional (.identifier "true")
        [.declaration "a" (some (.identifier "true"))] none]) := by
    rw [Node.ofSource, Token.scan]
    simp only [String.reduceToList]
    rfl
  have leaves := names_never_leak _ _ parsed ⟨0, 10, .memory⟩ 10 Machine.globalScope
    (Machine.start Machine.builtins fun _ => 0)
  exact ⟨parsed, (leaves.2.2 _ (.part .whole (List.mem_singleton.2 rfl))).1 rfl⟩

end Run

end YapLang
