import YapLang.Proofs.RunLetters

/-!
# Programs of source text do not run into faults of the machine

Some faults are reserved for trees that no source text gives: a statement in place of an expression,
an operator that does not exist, a jump that leaves a function. A proper tree is safe from them. Its
functions outlive the statement that declares them, so the property of the state that carries the
argument is that the bodies of all functions created so far are proper. Jumps are followed through
statements: one that leaves a statement is under way in a loop, and a loop takes it up.
-/
namespace YapLang

/-! ### Operators -/

namespace Value

variable {heap : Heap} {a b : Value}

theorem onlyRange_arithmetic {f : Float → Float → Float} :
    OnlyRange (arithmetic heap f a b) :=
  onlyRange_toNumber.bind fun _ => onlyRange_toNumber.bind fun _ => .ok _

theorem onlyRange_ordering {texts : Text → Text → Bool} {numbers : Float → Float → Bool} :
    OnlyRange (ordering heap texts numbers a b) := by
  unfold ordering
  split
  · exact .ok _
  · exact onlyRange_toNumber.bind fun _ => onlyRange_toNumber.bind fun _ => .ok _

/-- The operators of the language apply to all values. -/
theorem onlyRange_binary {op : String}
    (isOperator : op ∈ ["==", "===", "!=", "!==", "<", ">", "<=", ">=", "+", "-", "*", "/", "%"]) :
    OnlyRange (binary heap op a b) := by
  unfold binary
  -- addition joins texts; the last case is that of an operator which does not exist
  split
  · split
    · exact .ok _
    · exact onlyRange_arithmetic
  case h_6 | h_7 => exact onlyRange_looseEquals.map
  case h_8 | h_9 => exact .ok _
  case h_10 | h_11 | h_12 | h_13 => exact onlyRange_ordering
  case h_14 => simp_all
  all_goals exact onlyRange_arithmetic

theorem onlyRange_unary {op : String} (isOperator : op ∈ ["!", "-", "+"]) :
    OnlyRange (unary heap op a) := by
  unfold unary
  split
  · exact .ok _
  · exact onlyRange_toNumber.map
  · exact onlyRange_toNumber.map
  · simp_all

end Value

namespace Run

open Node Value

theorem onlyRange_updated {op : String} (isOperator : op ∈ ["++", "--"]) (x : Float) :
    OnlyRange (updated op x) := by
  unfold updated
  split
  · exact .ok _
  · exact .ok _
  · simp_all

theorem onlyRange_literal (value : LiteralValue) : OnlyRange (literal value) := by
  unfold literal
  split
  · exact .ok _
  · split
    · exact .ok _
    · exact .tooLarge

/-! ### Steps -/

variable {settings : Settings} {depth : Nat}

/-- The bodies of all functions are statements of source text. -/
def ProperBodies (m : Machine) : Prop :=
  ∀ closure ∈ m.heap.closures, ∀ s ∈ closure.body, ProperStatement false s

/-- A jump is under way in a loop only. -/
def InPlace (inLoop : Bool) (signal : Signal) : Prop :=
  inLoop = false → signal ≠ .breaking ∧ signal ≠ .continuing

theorem stable_properBodies : Stable ProperBodies := by
  intro m m' _ closures proper
  unfold ProperBodies
  rw [closures]
  exact proper

theorem ensures_onlyRange {α : Type} {I : Machine → Prop} {f : Heap → Except Fault α}
    (range : ∀ heap, OnlyRange (f heap)) : Ensures I (compute f) (fun _ => True) Benign := by
  refine .compute (fun _ _ _ _ => trivial) fun m _ fault failed => ?_
  rw [range m.heap fault failed]
  exact .inl (by simp [Fault.kind])

theorem ensures_openScope (parent : ScopeRef) :
    Ensures ProperBodies (openScope parent) (fun _ => True) Benign :=
  .modifyGet fun _ proper => ⟨trivial, proper⟩

theorem ensures_declareName (scope : ScopeRef) (name : Text) (value : Value) :
    Ensures ProperBodies (declareName scope name value) (fun _ => True) Benign :=
  .changing trivial fun _ proper => proper

theorem ensures_assign (scope : ScopeRef) (name : Text) (value : Value) :
    Ensures ProperBodies (assignName scope name value) (fun _ => True) Benign :=
  ensures_assignName scope name value fun _ _ proper _ => proper

theorem ensures_newClosure (closure : Closure)
    (body : ∀ s ∈ closure.body, ProperStatement false s) :
    Ensures ProperBodies (newClosure closure) (fun _ => True) Benign := by
  refine .modifyGet fun m proper => ⟨trivial, ?_⟩
  intro other member
  rcases Array.mem_push.1 member with member | rfl
  · exact proper other member
  · exact body

/-! ### Evaluation -/

/-- As far as evaluation goes, proper trees halt for benign reasons only, and jumps stay in
loops. -/
structure Safe (settings : Settings) (depth : Nat) : Prop where
  evaluate : ∀ scope expr, ProperExpression expr →
    Ensures ProperBodies (evaluate settings depth scope expr) (fun _ => True) Benign
  execute : ∀ inLoop scope s, ProperStatement inLoop s →
    Ensures ProperBodies (execute settings depth scope s) (InPlace inLoop) Benign
  call : ∀ function args description,
    Ensures ProperBodies (call settings depth function args description) (fun _ => True) Benign

theorem evaluate_safe (inner : Safe settings depth) (scope : ScopeRef) {expr : Node}
    (proper : ProperExpression expr) :
    Ensures ProperBodies (evaluate settings (depth + 1) scope expr) (fun _ => True) Benign := by
  have eval {expr : Node} := inner.evaluate scope expr
  -- a proper tree has no other forms, so the fault for them is not reached
  cases proper <;> simp only [Run.evaluate]
  case number bits _ =>
    exact (ensures_onlyRange fun _ => onlyRange_literal (.double _)).bind fun _ _ => .pure trivial
  case text => exact .pure trivial
  case identifier name _ => exact ensures_readName scope name
  case binary op left right isOperator first second =>
    refine (eval first).bind fun a _ => (eval second).bind fun b _ => ?_
    exact ensures_onlyRange fun _ => onlyRange_binary isOperator
  case logical op left right isOperator first second =>
    refine (eval first).bind fun a _ => ?_
    split
    · exact .ite (fun _ => eval second) fun _ => .pure trivial
    · exact .ite (fun _ => .pure trivial) fun _ => eval second
    · simp_all
  case unary op operand isOperator operands =>
    refine (eval operands).bind fun a _ => ?_
    exact ensures_onlyRange fun _ => onlyRange_unary isOperator
  case assignment name value _ values =>
    exact (eval values).bind fun a _ => ensures_assign scope name a
  case update op name isOperator _ =>
    refine (ensures_readName scope name).bind fun old _ => ?_
    refine (ensures_number old).bind fun x _ => ?_
    refine (ensures_onlyRange fun _ => onlyRange_updated isOperator x).bind fun y _ => ?_
    exact ensures_assign scope name _
  case call callee args function arguments =>
    refine (eval function).bind fun function _ => ?_
    refine (Ensures.mapM fun arg member => eval (arguments arg member)).bind fun values _ => ?_
    exact inner.call function values _
  case property object name objects _ =>
    exact (eval objects).bind fun target _ => ensures_readMember stable_properBodies target _
  case index object key objects keys =>
    refine (eval objects).bind fun target _ => (eval keys).bind fun key _ => ?_
    exact ensures_readMember stable_properBodies target key
  case array elements items =>
    refine (Ensures.mapM fun item member => eval (items item member)).bind fun values _ => ?_
    exact ensures_newArray stable_properBodies _

theorem inBlock_safe (inner : Safe settings depth) {inLoop : Bool} (scope : ScopeRef)
    {body : List Node} (proper : ∀ s ∈ body, ProperStatement inLoop s) :
    Ensures ProperBodies (inBlock (execute settings depth) scope body) (InPlace inLoop) Benign :=
  .inBlock (fun _ => by simp) (ensures_openScope scope) fun inside _ node member =>
    inner.execute inLoop inside node (proper node member)

/-- An expression that may be left out, followed by something that always gives a value. -/
theorem optional_safe (inner : Safe settings depth) (scope : ScopeRef) {α : Type}
    {expr : Option Node} (proper : ∀ e ∈ expr, ProperExpression e) (f : Value → α) (a : α) :
    Ensures ProperBodies
      (match expr with
        | some expr => return f (← evaluate settings depth scope expr)
        | none => return a) (fun _ => True) Benign := by
  split
  next e => exact (inner.evaluate scope e (proper e rfl)).bind fun _ _ => .pure trivial
  · exact .pure trivial

theorem loop_safe (settings : Settings) {test : Run Bool} {body : Run Signal} {update : Run Unit}
    {inLoop : Bool}
    (tests : Ensures ProperBodies test (fun _ => True) Benign)
    (bodies : Ensures ProperBodies body (InPlace true) Benign)
    (updates : Ensures ProperBodies update (fun _ => True) Benign) :
    Ensures ProperBodies (loop settings test body update) (InPlace inLoop) Benign := by
  -- the body may leave a jump under way; the loop does not
  have anySignal := bodies.mono (fun _ _ => trivial) fun _ benign => benign
  exact (Ensures.loop trivial tests anySignal updates).mono (fun _ noJump _ => noJump)
    fun _ benign => benign

theorem execute_safe (inner : Safe settings depth) {inLoop : Bool} (scope : ScopeRef) {s : Node}
    (proper : ProperStatement inLoop s) :
    Ensures ProperBodies (execute settings (depth + 1) scope s) (InPlace inLoop) Benign := by
  have normal {inLoop : Bool} : InPlace inLoop .normal := fun _ => by simp
  have noted (level : Nat) (message : Heap → Text) :
      Ensures ProperBodies (note settings level message) (fun _ => True) Benign :=
    ensures_note stable_properBodies settings level message
  cases proper <;> simp only [Run.execute]
  case statement expr expression =>
    exact (inner.evaluate scope expr expression).bind fun _ _ => .pure normal
  case declaration name init isName inits =>
    have declared (value : Value) : Ensures ProperBodies (do
        declareName scope name value
        note settings 2 fun heap => "declare " ++ name ++ " = " ++ value.toText heap
        return Signal.normal) (InPlace inLoop) Benign := by
      refine (ensures_declareName scope name value).bind fun _ _ => ?_
      exact (noted _ _).bind fun _ _ => .pure normal
    split
    next e => exact (inner.evaluate scope e (inits e rfl)).bind fun value _ => declared value
    · exact declared .undefined
  case function name params body _ _ statements =>
    refine (ensures_newClosure ⟨name, _, body, scope⟩ statements).bind fun value _ => ?_
    refine (ensures_declareName scope name value).bind fun _ _ => ?_
    exact (noted _ _).bind fun _ _ => .pure normal
  case block body statements => exact inBlock_safe inner scope statements
  case conditional test consequent alternate tests _ statements alternates =>
    refine (inner.evaluate scope test tests).bind fun value _ => (noted _ _).bind fun _ _ => ?_
    refine .ite (fun _ => inBlock_safe inner scope statements) fun _ => ?_
    cases alternate with
    | some node => exact inner.execute inLoop scope node (alternates node rfl)
    | none => exact .pure normal
  case forLoop init test update body inits tests updates statements =>
    refine (ensures_openScope scope).bind fun inside _ => ?_
    -- the loop itself is the same after all three ways to start
    have rounds : Ensures ProperBodies _ (InPlace inLoop) Benign :=
      loop_safe settings (optional_safe inner inside tests Value.isTruthy true)
        (inBlock_safe inner inside statements)
        (optional_safe inner inside updates (fun _ => ()) ())
    split
    · exact rounds
    -- the declaration in the header is a statement: to be in a loop makes no difference to it
    next name value =>
      refine Ensures.bind (Q := fun _ => True) ?_ fun _ _ => rounds
      rcases inits _ rfl with expression | ⟨name, value, same, isName, values⟩
      · cases expression
      · cases same
        exact (inner.execute true inside _ (.declaration isName values)).mono (fun _ _ => trivial)
          fun _ benign => benign
    next expr noDeclaration =>
      rcases inits expr rfl with expression | ⟨name, value, same, -, -⟩
      · exact (inner.evaluate inside expr expression).bind fun _ _ => rounds
      · exact absurd same (noDeclaration name value)
  case whileLoop test body tests statements =>
    refine loop_safe settings ?_ (inBlock_safe inner scope statements) (.pure trivial)
    exact (inner.evaluate scope test tests).bind fun _ _ => .pure trivial
  case returning argument arguments =>
    split
    next e =>
      refine (inner.evaluate scope e (arguments e rfl)).bind fun value _ => ?_
      exact .pure fun _ => by simp
    · exact .pure fun _ => by simp
  case breakJump | continueJump => exact .pure (by rintro ⟨⟩)

theorem call_safe (inner : Safe settings depth) (function : Value) (args : List Value)
    (description : Text) :
    Ensures ProperBodies (call settings (depth + 1) function args description) (fun _ => True)
      Benign := by
  have notAFunction : Benign (.fault (.notAFunction description)) := .inl (by simp [Fault.kind])
  cases function <;> simp only [Run.call]
  case builtin function =>
    refine ensures_callNative stable_properBodies settings _ _ args ?_
    exact ensures_callBuiltin stable_properBodies settings function args
  case method stamp method receiver =>
    refine ensures_callNative stable_properBodies settings _ _ args ?_
    exact ensures_callMethod stable_properBodies method receiver args
  case closure ref =>
    refine Ensures.get.bind fun m proper => ?_
    split
    · exact .fail notAFunction
    next closure found =>
      -- whichever function it is, its body was proper when it was created
      have statements := proper closure (Array.mem_of_getElem? found)
      refine .ite (fun _ => .fail (.inl (by simp [Fault.kind]))) fun _ => ?_
      refine (ensures_note stable_properBodies settings _ _).bind fun _ _ => ?_
      refine (ensures_openScope closure.scope).bind fun inside _ => ?_
      refine (Ensures.forM fun binding _ => ensures_declareName inside _ _).bind fun _ _ => ?_
      refine Ensures.bind (Q := InPlace false) ?_ fun signal inPlace => ?_
      · refine .inOrder (fun _ => by simp) fun node member => ?_
        exact inner.execute false inside node (statements node member)
      -- no jump has left the body
      · cases signal with
        | normal => exact .pure trivial
        | returning value => exact .pure trivial
        | breaking => exact absurd rfl (inPlace rfl).1
        | continuing => exact absurd rfl (inPlace rfl).2
  all_goals exact .fail notAFunction

theorem safe (settings : Settings) (depth : Nat) : Safe settings depth := by
  induction depth with
  | zero =>
    have overflow : Benign (.fault .stackOverflow) := .inr rfl
    refine ⟨fun scope expr _ => ?_, fun inLoop scope s _ => ?_, fun function args description => ?_⟩
    · rw [evaluate]
      exact .fail overflow
    · rw [execute]
      exact .fail overflow
    · rw [call]
      exact .fail overflow
  | succ depth ih =>
    exact ⟨fun scope _ => evaluate_safe ih scope, fun _ scope _ => execute_safe ih scope,
      call_safe ih⟩

theorem program_safe {body : List Node} (proper : ∀ s ∈ body, ProperStatement false s)
    (settings : Settings) (limit : Nat) (scope : ScopeRef) :
    Ensures ProperBodies (program settings limit scope body) (fun _ => True) Benign := by
  have noted (level : Nat) (message : Heap → Text) :
      Ensures ProperBodies (note settings level message) (fun _ => True) Benign :=
    ensures_note stable_properBodies settings level message
  refine (noted _ _).bind fun _ _ => ?_
  refine Ensures.bind (Q := InPlace false) ?_ fun signal inPlace => ?_
  · refine .inOrder (fun _ => by simp) fun node member => ?_
    exact (safe settings limit).execute false scope node (proper node member)
  · cases signal with
    | normal => exact (noted _ _).bind fun _ _ => .pure trivial
    | returning value => exact (noted _ _).bind fun _ _ => .pure trivial
    | breaking => exact absurd rfl (inPlace rfl).1
    | continuing => exact absurd rfl (inPlace rfl).2

/-! ### Loops -/

/-- Nothing is asked of the state, so every run will do. -/
theorem ensures_anything {α : Type} (x : Run α) :
    Ensures (fun _ => True) x (fun _ => True) fun _ => True := by
  intro m _
  cases x m <;> exact ⟨trivial, trivial⟩

end Run

/-- The node is a loop. -/
def Node.IsLoop : Node → Prop
  | .whileLoop .. | .forLoop .. => True
  | _ => False

namespace Run

/-- Whatever is in a loop, no jump leaves it. -/
theorem loop_takes_up_jumps {node : Node} (isLoop : node.IsLoop) (settings : Settings) (depth : Nat)
    (scope : ScopeRef) :
    Ensures (fun _ => True) (execute settings depth scope node)
      (fun signal => signal ≠ .breaking ∧ signal ≠ .continuing) fun _ => True := by
  have rounds (test : Run Bool) (body : Run Signal) (update : Run Unit) :
      Ensures (fun _ => True) (loop settings test body update)
        (fun signal => signal ≠ .breaking ∧ signal ≠ .continuing) fun _ => True :=
    .loop trivial (ensures_anything _) (ensures_anything _) (ensures_anything _)
  cases depth with
  | zero =>
    rw [execute]
    exact .fail trivial
  | succ depth =>
    cases node with
    | whileLoop test body =>
      simp only [Run.execute]
      exact rounds _ _ _
    | forLoop init test update body =>
      simp only [Run.execute]
      refine (ensures_anything _).bind fun inside _ => ?_
      split
      · exact rounds _ _ _
      · exact (ensures_anything _).bind fun _ _ => rounds _ _ _
      · exact (ensures_anything _).bind fun _ _ => rounds _ _ _
    | _ => cases isLoop

/-- Names in source text are strings, so only a literal can have a half. -/
theorem exists_half_literal [CharacterNames] {source : String} {tree : Node}
    (parsed : Node.ofSource source = .ok tree) (half : ¬ Node.Over .characters tree) :
    ∃ s, tree.Occurs (.text s) ∧ ¬s.IsWhole := by
  by_contra literals
  apply half
  intro node occurs
  cases node with
  | text s =>
    by_contra notOver
    exact literals ⟨s, occurs, fun isWhole => notOver (Text.isWhole_iff_over.1 isWhole)⟩
  | function name params body =>
    rcases Node.proper_of_occurs parsed occurs with same | proper | ⟨inLoop, proper⟩
    · obtain ⟨_, rfl, -⟩ := Node.proper_of_ofSource parsed
      cases same
    · cases proper
    · cases proper
      exact Text.over_string _
  | _ => trivial

end Run

end YapLang
