import YapLang.Proofs.ScopeFrames
import YapLang.Proofs.TextLetters

/-!
# Less stack

A run that is given less stack does the same as one that is given more, up to the point where its
stack overflows. Nothing takes an overflow up: it ends the arguments, the loop test or the array
that it happens in, and the whole run. What was printed and logged by then is the beginning of what
the other run prints and logs, since nothing that is printed or logged is ever taken back.

Statements, expressions and calls take stack, one level for each step inward. The texts of values,
whether they are printed, joined or logged, and the descriptions of what is called take none, so how
deeply arrays and callees are nested does not count here.

Both facts are one relation between two runs: the second one only adds to what was printed, and the
first one ends like it or is cut short. Every way of putting runs together keeps the relation.
-/
namespace YapLang

namespace Machine

/-- What the second machine has printed and logged begins with what the first one has. -/
structure Precedes (m n : Machine) : Prop where
  output : ∃ more, n.output = m.output ++ more
  log : ∃ more, n.log = m.log ++ more

namespace Precedes

theorem of_eq {m n : Machine} (output : n.output = m.output) (log : n.log = m.log) :
    m.Precedes n :=
  ⟨⟨"", by rw [output, Text.append_empty]⟩, ⟨#[], by rw [log, Array.append_empty]⟩⟩

theorem refl (m : Machine) : m.Precedes m :=
  of_eq rfl rfl

theorem trans {m₁ m₂ m₃ : Machine} (first : m₁.Precedes m₂) (second : m₂.Precedes m₃) :
    m₁.Precedes m₃ := by
  obtain ⟨⟨printed, output⟩, ⟨logged, log⟩⟩ := first
  obtain ⟨⟨printed', output'⟩, ⟨logged', log'⟩⟩ := second
  constructor
  · exact ⟨printed ++ printed', by rw [output', output, Text.append_assoc]⟩
  · exact ⟨logged ++ logged', by rw [log', log, Array.append_assoc]⟩

end Precedes

end Machine

namespace Run

variable {α β : Type}

/-! ### The relation and its rules -/

theorem final_of_ok {x : Run α} {m m' : Machine} {a : α} (outcome : x m = .ok a m') :
    final x m = m' := by
  rw [final, outcome]

theorem final_of_error {x : Run α} {m m' : Machine} {halt : Halt} (outcome : x m = .error halt m') :
    final x m = m' := by
  rw [final, outcome]

/-- The run only adds to what was printed and logged. -/
def Appends (x : Run α) : Prop :=
  ∀ m : Machine, m.Precedes (final x m)

/-- The second run only adds to what was printed and logged. The first one ends like it, or else its
stack overflows when it has come up to some point of what the second one prints and logs. -/
structure Curtails (x y : Run α) : Prop where
  appends : Appends y
  ends : ∀ m, x m = y m ∨
    ∃ m', x m = .error (.fault .stackOverflow) m' ∧ m'.Precedes (final y m)

namespace Curtails

theorem refl {x : Run α} (appends : Appends x) : Curtails x x :=
  ⟨appends, fun _ => .inl rfl⟩

/-- At the limit the stack overflows before anything is done. -/
theorem atLimit {x : Run α} (appends : Appends x) : Curtails (fail .stackOverflow) x :=
  ⟨appends, fun m => .inr ⟨m, rfl, appends m⟩⟩

theorem pure (a : α) : Curtails (Pure.pure a : Run α) (Pure.pure a) :=
  refl fun m => .refl m

theorem throw (halt : Halt) :
    Curtails (MonadExcept.throw halt : Run α) (MonadExcept.throw halt) :=
  refl fun m => .refl m

theorem fail (fault : Fault) : Curtails (Run.fail fault : Run α) (Run.fail fault) :=
  throw (.fault fault)

theorem bind {x y : Run α} {f g : α → Run β} (first : Curtails x y)
    (next : ∀ a, Curtails (f a) (g a)) : Curtails (x >>= f) (y >>= g) := by
  constructor
  · intro m
    have begun := first.appends m
    cases outcome : y m with
    | error halt m₁ =>
      rw [final_of_error outcome] at begun
      rwa [final_of_error (bind_of_error outcome)]
    | ok a m₁ =>
      rw [final_of_ok outcome] at begun
      rw [final, bind_of_ok outcome]
      exact begun.trans ((next a).appends m₁)
  · intro m
    cases outcome : y m with
    | error halt m₁ =>
      rcases first.ends m with same | ⟨m', overflows, precedes⟩
      · rw [outcome] at same
        exact .inl (by rw [bind_of_error same, bind_of_error outcome])
      · refine .inr ⟨m', bind_of_error overflows, ?_⟩
        rw [final_of_error outcome] at precedes
        rwa [final_of_error (bind_of_error outcome)]
    | ok a m₁ =>
      -- the second run goes on, and adds to what it has printed so far
      have further : final (y >>= g) m = final (g a) m₁ := by
        rw [final, bind_of_ok outcome]
        rfl
      rcases first.ends m with same | ⟨m', overflows, precedes⟩
      · -- the first halves end alike, so it is for the second ones to differ
        rw [outcome] at same
        rw [bind_of_ok same, bind_of_ok outcome, further]
        exact (next a).ends m₁
      · refine .inr ⟨m', bind_of_error overflows, ?_⟩
        rw [final_of_ok outcome] at precedes
        rw [further]
        exact precedes.trans ((next a).appends m₁)

theorem get {f g : Machine → Run α} (next : ∀ m, Curtails (f m) (g m)) :
    Curtails (MonadState.get >>= f) (MonadState.get >>= g) :=
  bind (refl fun m => .refl m) next

theorem modifyGet {f : Machine → α × Machine} (adds : ∀ m : Machine, m.Precedes (f m).2) :
    Curtails (MonadState.modifyGet f : Run α) (MonadState.modifyGet f) :=
  refl adds

/-- A change that prints and logs nothing. -/
theorem silent {f : Machine → α × Machine} (output : ∀ m, (f m).2.output = m.output)
    (log : ∀ m, (f m).2.log = m.log) :
    Curtails (MonadState.modifyGet f : Run α) (MonadState.modifyGet f) :=
  modifyGet fun m => .of_eq (output m) (log m)

theorem compute (f : Heap → Except Fault α) : Curtails (Run.compute f) (Run.compute f) := by
  apply get
  intro m
  cases f m.heap with
  | ok a => exact pure a
  | error fault => exact fail fault

theorem mapM {f g : α → Run β} {xs : List α} (each : ∀ a ∈ xs, Curtails (f a) (g a)) :
    Curtails (xs.mapM f) (xs.mapM g) := by
  induction xs with
  | nil => exact pure []
  | cons a xs ih =>
    rw [List.mapM_cons, List.mapM_cons]
    apply (each a (by simp)).bind
    intro b
    apply (ih fun a member => each a (by simp [member])).bind
    intro bs
    exact pure (b :: bs)

theorem forM {f g : α → Run PUnit} {xs : List α} (each : ∀ a ∈ xs, Curtails (f a) (g a)) :
    Curtails (xs.forM f) (xs.forM g) := by
  induction xs with
  | nil => exact pure PUnit.unit
  | cons a xs ih =>
    apply (each a (by simp)).bind
    intro _
    exact ih fun a member => each a (by simp [member])

/-! ### Statements in sequence and in loops -/

theorem inOrder {execute other : Node → Run Signal} {body : List Node}
    (each : ∀ node ∈ body, Curtails (execute node) (other node)) :
    Curtails (Run.inOrder execute body) (Run.inOrder other body) := by
  induction body with
  | nil => exact pure Signal.normal
  | cons node rest ih =>
    apply (each node (by simp)).bind
    intro signal
    cases signal with
    | normal => exact ih fun node member => each node (by simp [member])
    | breaking | continuing | returning => exact pure _

theorem rounds {round other : Run (Option α)} (patience : Nat) (each : Curtails round other) :
    Curtails (Run.rounds round patience) (Run.rounds other patience) := by
  induction patience with
  | zero => exact throw .unfinished
  | succ patience ih =>
    apply each.bind
    intro result
    cases result with
    | some a => exact pure a
    | none => exact ih

theorem loop {settings : Settings} {test test' : Run Bool} {body body' : Run Signal}
    {update update' : Run Unit} (tests : Curtails test test') (bodies : Curtails body body')
    (updates : Curtails update update') :
    Curtails (Run.loop settings test body update) (Run.loop settings test' body' update') := by
  apply rounds
  apply tests.bind
  intro goesOn
  split
  · apply bodies.bind
    intro signal
    cases signal with
    | breaking | returning => exact pure _
    | normal | continuing => exact updates.bind fun _ => pure none
  · exact pure _

end Curtails

/-! ### The operations of the machine -/

theorem curtails_readName (scope : ScopeRef) (name : Text) :
    Curtails (readName scope name) (readName scope name) := by
  apply Curtails.get
  intro m
  cases m.scopes.get? name scope with
  | none => exact .fail _
  | some value => exact .pure value

theorem curtails_declareName (scope : ScopeRef) (name : Text) (value : Value) :
    Curtails (declareName scope name value) (declareName scope name value) :=
  .silent (fun _ => rfl) fun _ => rfl

theorem curtails_assignName (scope : ScopeRef) (name : Text) (value : Value) :
    Curtails (assignName scope name value) (assignName scope name value) := by
  apply Curtails.get
  intro m
  cases m.scopes.resolve? name scope with
  | none => exact .fail _
  | some owner => exact (Curtails.silent (fun _ => rfl) fun _ => rfl).bind fun _ => .pure value

theorem curtails_openScope (parent : ScopeRef) : Curtails (openScope parent) (openScope parent) :=
  .silent (fun _ => rfl) fun _ => rfl

theorem curtails_newArray (items : Array Value) : Curtails (newArray items) (newArray items) :=
  .silent (fun _ => rfl) fun _ => rfl

theorem curtails_changeItems (ref : ArrayRef) (f : Array Value → Array Value) :
    Curtails (changeItems ref f) (changeItems ref f) :=
  .silent (fun _ => rfl) fun _ => rfl

theorem curtails_newClosure (closure : Closure) :
    Curtails (newClosure closure) (newClosure closure) :=
  .silent (fun _ => rfl) fun _ => rfl

theorem curtails_write (settings : Settings) (text : Text) :
    Curtails (write settings text) (write settings text) := by
  unfold write
  split
  · exact .fail _
  · exact .modifyGet fun m => ⟨⟨text, rfl⟩, ⟨#[], by simp⟩⟩

theorem curtails_note (settings : Settings) (level : Nat) (message : Heap → Text) :
    Curtails (note settings level message) (note settings level message) := by
  unfold note
  split
  · apply Curtails.modifyGet
    intro m
    exact ⟨⟨"", by simp⟩, ⟨#[⟨level, message m.heap⟩], by simp⟩⟩
  · exact .pure _

theorem curtails_drawNumber : Curtails drawNumber drawNumber :=
  .silent (fun _ => rfl) fun _ => rfl

theorem curtails_readMember (target key : Value) :
    Curtails (readMember target key) (readMember target key) := by
  apply Curtails.get
  intro m
  dsimp only
  split
  · exact .fail _
  · exact .pure _
  · exact .pure _
  · split
    · exact .pure _
    · split
      · exact .silent (fun _ => rfl) fun _ => rfl
      · exact .pure _
  all_goals exact .pure _

theorem curtails_callBuiltin (settings : Settings) (function : Builtin) (args : List Value) :
    Curtails (callBuiltin settings function args) (callBuiltin settings function args) := by
  unfold callBuiltin
  split
  · apply Curtails.get
    intro m
    exact (curtails_write settings _).bind fun _ => .pure _
  · exact curtails_drawNumber.bind fun _ => .pure _
  · exact (Curtails.mapM fun _ _ => .compute _).bind fun _ => .pure _

theorem curtails_callMethod (method : ArrayMethod) (ref : ArrayRef) (args : List Value) :
    Curtails (callMethod method ref args) (callMethod method ref args) := by
  unfold callMethod
  split
  · apply (curtails_changeItems ref _).bind
    intro _
    exact .get fun _ => .pure _
  · apply Curtails.get
    intro m
    split
    · exact (curtails_changeItems ref _).bind fun _ => .pure _
    · exact .pure _
  · exact .get fun _ => .pure _
  · exact .get fun _ => .pure _

theorem curtails_callNative (settings : Settings) (name : String) (arity? : Option Nat)
    (args : List Value) {body : Run Value} (bodies : Curtails body body) :
    Curtails (callNative settings name arity? args body)
      (callNative settings name arity? args body) := by
  -- the number of arguments is checked before anything is logged
  have noted := (curtails_note settings 3 fun _ => "call native " ++ name).bind fun _ => bodies
  unfold callNative
  split
  · split
    · exact (Curtails.fail _).bind fun _ => noted
    · exact noted
  · exact noted

/-! ### Evaluation -/

/-- Evaluation that may go less deep is cut short by evaluation that may go deeper. -/
structure Shallower (settings : Settings) (lower higher : Nat) : Prop where
  evaluate : ∀ scope node,
    Curtails (Run.evaluate settings lower scope node) (Run.evaluate settings higher scope node)
  execute : ∀ scope node,
    Curtails (Run.execute settings lower scope node) (Run.execute settings higher scope node)
  call : ∀ function args description,
    Curtails (Run.call settings lower function args description)
      (Run.call settings higher function args description)

variable {settings : Settings} {lower higher : Nat}

namespace Shallower

variable (inner : Shallower settings lower higher)
include inner

theorem evaluateAll (scope : ScopeRef) (nodes : List Node) :
    Curtails (nodes.mapM (Run.evaluate settings lower scope))
      (nodes.mapM (Run.evaluate settings higher scope)) :=
  .mapM fun node _ => inner.evaluate scope node

theorem inOrder (scope : ScopeRef) (body : List Node) :
    Curtails (Run.inOrder (Run.execute settings lower scope) body)
      (Run.inOrder (Run.execute settings higher scope) body) :=
  .inOrder fun node _ => inner.execute scope node

theorem inBlock (scope : ScopeRef) (body : List Node) :
    Curtails (Run.inBlock (Run.execute settings lower) scope body)
      (Run.inBlock (Run.execute settings higher) scope body) :=
  (curtails_openScope scope).bind fun inside => inner.inOrder inside body

/-- An expression that may be left out, followed by something that always gives a value. -/
theorem optional (scope : ScopeRef) (expr : Option Node) (f : Value → α) (a : α) :
    Curtails
      (match expr with
        | some expr => return f (← Run.evaluate settings lower scope expr)
        | none => return a)
      (match expr with
        | some expr => return f (← Run.evaluate settings higher scope expr)
        | none => return a) := by
  cases expr with
  | none => exact .pure a
  | some expr => exact (inner.evaluate scope expr).bind fun value => .pure (f value)

end Shallower

section

variable (inner : Shallower settings lower higher)
include inner

theorem evaluate_curtails (scope : ScopeRef) (node : Node) :
    Curtails (evaluate settings (lower + 1) scope node)
      (evaluate settings (higher + 1) scope node) := by
  cases node <;> simp only [Run.evaluate]
  case number value => exact (Curtails.compute _).bind fun _ => .pure _
  case text value => exact .pure _
  case identifier name => exact curtails_readName scope name
  case binary op left right =>
    apply (inner.evaluate scope left).bind
    intro a
    apply (inner.evaluate scope right).bind
    intro b
    exact .compute _
  case logical op left right =>
    apply (inner.evaluate scope left).bind
    intro a
    split
    · split
      · exact inner.evaluate scope right
      · exact .pure a
    · split
      · exact .pure a
      · exact inner.evaluate scope right
    · exact .fail _
  case unary op operand => exact (inner.evaluate scope operand).bind fun a => .compute _
  case assignment target value =>
    exact (inner.evaluate scope value).bind fun a => curtails_assignName scope target a
  case update op target =>
    apply (curtails_readName scope target).bind
    intro old
    apply (Curtails.compute _).bind
    intro x
    apply (Curtails.compute _).bind
    intro y
    exact curtails_assignName scope target _
  case call callee args =>
    apply (inner.evaluate scope callee).bind
    intro function
    apply (inner.evaluateAll scope args).bind
    intro values
    exact inner.call function values _
  case property object name =>
    exact (inner.evaluate scope object).bind fun a => curtails_readMember a _
  case index object key =>
    apply (inner.evaluate scope object).bind
    intro target
    apply (inner.evaluate scope key).bind
    intro key
    exact curtails_readMember target key
  case array elements =>
    exact (inner.evaluateAll scope elements).bind fun items => curtails_newArray _
  all_goals exact .fail _

theorem execute_curtails (scope : ScopeRef) (node : Node) :
    Curtails (execute settings (lower + 1) scope node)
      (execute settings (higher + 1) scope node) := by
  cases node <;> simp only [Run.execute]
  case statement expr => exact (inner.evaluate scope expr).bind fun _ => .pure _
  case declaration name init =>
    have declared (value : Value) :=
      (curtails_declareName scope name value).bind fun _ =>
        (curtails_note settings 2 fun heap =>
          "declare " ++ name ++ " = " ++ value.toText heap).bind fun _ =>
            Curtails.pure Signal.normal
    cases init with
    | none => exact declared .undefined
    | some expr => exact (inner.evaluate scope expr).bind declared
  case function name params body =>
    apply (curtails_newClosure _).bind
    intro value
    apply (curtails_declareName scope name value).bind
    intro _
    exact (curtails_note settings 2 _).bind fun _ => .pure _
  case block body => exact inner.inBlock scope body
  case conditional test consequent alternate =>
    apply (inner.evaluate scope test).bind
    intro value
    apply (curtails_note settings 3 _).bind
    intro _
    split
    · exact inner.inBlock scope consequent
    · cases alternate with
      | none => exact .pure _
      | some node => exact inner.execute scope node
  case whileLoop test body =>
    apply Curtails.loop
    · exact inner.optional scope (some test) Value.isTruthy true
    · exact inner.inBlock scope body
    · exact .pure _
  case forLoop init test update body =>
    apply (curtails_openScope scope).bind
    intro inside
    -- the loop itself is the same after all three ways to start
    have rounds := @Curtails.loop settings _ _ _ _ _ _
      (inner.optional inside test Value.isTruthy true) (inner.inBlock inside body)
      (inner.optional inside update (fun _ => ()) ())
    split
    · exact rounds
    · exact (inner.execute inside _).bind fun _ => rounds
    · exact (inner.evaluate inside _).bind fun _ => rounds
  case returning argument =>
    cases argument with
    | none => exact .pure _
    | some expr => exact (inner.evaluate scope expr).bind fun value => .pure _
  case breakJump | continueJump => exact .pure _
  all_goals exact .fail _

theorem call_curtails (function : Value) (args : List Value) (description : Text) :
    Curtails (call settings (lower + 1) function args description)
      (call settings (higher + 1) function args description) := by
  cases function <;> simp only [Run.call]
  case builtin function =>
    exact curtails_callNative settings _ _ args (curtails_callBuiltin settings function args)
  case method stamp method receiver =>
    exact curtails_callNative settings _ _ args (curtails_callMethod method receiver args)
  case closure ref =>
    apply Curtails.get
    intro m
    split
    · exact .fail _
    · split
      · exact .fail _
      apply (curtails_note settings 3 _).bind
      intro _
      apply (curtails_openScope _).bind
      intro inside
      apply (Curtails.forM fun _ _ => curtails_declareName inside _ _).bind
      intro _
      apply (inner.inOrder inside _).bind
      intro signal
      cases signal with
      | normal | returning => exact .pure _
      | breaking | continuing => exact .fail _
  all_goals exact .fail _

end

/-- By induction on the greater depth. At depth zero the lower run overflows at once, which is no
more than that the higher one, compared with itself, only adds to the output. -/
theorem shallower (settings : Settings) :
    ∀ {higher lower : Nat}, lower ≤ higher → Shallower settings lower higher := by
  intro higher
  induction higher with
  | zero =>
    intro lower less
    obtain rfl := Nat.le_zero.1 less
    constructor
    · intro scope node
      rw [evaluate]
      exact .fail _
    · intro scope node
      rw [execute]
      exact .fail _
    · intro function args description
      rw [call]
      exact .fail _
  | succ higher ih =>
    have step (lower : Nat) (less : lower ≤ higher) : Shallower settings (lower + 1) (higher + 1) :=
      have inner := ih less
      ⟨evaluate_curtails inner, execute_curtails inner, call_curtails inner⟩
    intro lower less
    cases lower with
    | zero =>
      -- compared with itself, the higher run only adds to the output
      have same := step higher (Nat.le_refl _)
      constructor
      · intro scope node
        rw [evaluate]
        exact .atLimit (same.evaluate scope node).appends
      · intro scope node
        rw [execute]
        exact .atLimit (same.execute scope node).appends
      · intro function args description
        rw [call]
        exact .atLimit (same.call function args description).appends
    | succ lower => exact step lower (Nat.le_of_succ_le_succ less)

theorem program_curtails (less : lower ≤ higher) (scope : ScopeRef) (body : List Node) :
    Curtails (program settings lower scope body) (program settings higher scope body) := by
  unfold program
  apply (curtails_note settings 1 _).bind
  intro _
  apply ((shallower settings less).inOrder scope body).bind
  intro signal
  cases signal with
  | breaking | continuing => exact .fail _
  | normal | returning => exact (curtails_note settings 1 _).bind fun _ => .pure _

open Machine

/-- A lower stack limit changes nothing but whether the stack overflows. From any state, a program
that is run with a lower and with a higher limit ends in the same way and in the same state, or else
the stack of the first run overflows, and what it has printed is the beginning of what the second
one prints. -/
theorem less_stack_only_cuts_short (settings : Settings) (less : lower ≤ higher) (scope : ScopeRef)
    (body : List Node) (m : Machine) :
    program settings lower scope body m = program settings higher scope body m ∨
      ∃ fault last, program settings lower scope body m = .error (.fault fault) last ∧
        fault.kind = .runtime ∧ fault.message = "maximum call stack size exceeded" ∧
        ∃ more, (final (program settings higher scope body) m).output = last.output ++ more := by
  rcases (program_curtails less scope body).ends m with same | ⟨last, overflows, precedes⟩
  · exact .inl same
  · exact .inr ⟨.stackOverflow, last, overflows, rfl, rfl, precedes.output⟩

/-- A function that calls itself once prints two lines. With less stack, the second call does not
come as far as printing. -/
theorem less_stack_only_cuts_short_recursion :
    let body : List Node :=
      [ .function "f" ["x"]
          [ .statement (.call (.identifier "print") [.identifier "x"]),
            .conditional (.identifier "x")
              [.returning (some (.call (.identifier "f") [.identifier "false"]))] none ],
        .statement (.call (.identifier "f") [.identifier "true"]) ]
    let run (limit : Nat) := program ⟨0, 10, .memory⟩ limit globalScope body
    (final (run 20) (start builtins fun _ => 0)).output = "true\nfalse\n" ∧
      (final (run 8) (start builtins fun _ => 0)).output = "true\n" ∧
      ∃ fault last, run 8 (start builtins fun _ => 0) = .error (.fault fault) last ∧
        fault.kind = .runtime ∧ fault.message = "maximum call stack size exceeded" ∧
        ∃ more, (final (run 20) (start builtins fun _ => 0)).output = last.output ++ more := by
  intro body run
  have long : (final (run 20) (start builtins fun _ => 0)).output = "true\nfalse\n" := by
    decide +kernel
  have short : (final (run 8) (start builtins fun _ => 0)).output = "true\n" := by decide +kernel
  refine ⟨long, short, ?_⟩
  have ends := less_stack_only_cuts_short ⟨0, 10, .memory⟩ (by decide : 8 ≤ 20) globalScope body
    (start builtins fun _ => 0)
  apply ends.resolve_left
  intro same
  -- if the runs ended alike, they would have printed the same
  have outputs : (final (run 8) (start builtins fun _ => 0)).output =
      (final (run 20) (start builtins fun _ => 0)).output := by
    unfold final
    rw [show run 8 (start builtins fun _ => 0) = run 20 (start builtins fun _ => 0) from same]
  rw [long, short] at outputs
  exact absurd outputs (by decide)

end Run

end YapLang
