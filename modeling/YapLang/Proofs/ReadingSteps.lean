import YapLang.Tree.Reading

/-!
# Steps of reading

When a step of reading succeeds, and with what: one statement for each primitive step, and one that
takes a sequence of steps apart. Proofs about the functions that read programs go by these.

The second half compares two readings. The places of the tokens are not looked at, and a step that
is allowed to nest deeper gives the same answer unless the shallower one has run into its limit.
Every way of putting steps together keeps that relation, so it holds of programs.
-/
namespace YapLang.Reading

variable {α β : Type} {s s' : List Token} {text : String}

/-! ### Sequences -/

theorem bind_eq_ok {x : Reading α} {f : α → Reading β} {r : β × List Token} :
    (x >>= f) s = .ok r ↔ ∃ a s', x s = .ok (a, s') ∧ f a s' = .ok r := by
  show (StateT.bind x f) s = .ok r ↔ _
  unfold StateT.bind
  cases outcome : x s with
  | error rejection => simp [bind, Except.bind]
  | ok taken =>
    obtain ⟨a, s'⟩ := taken
    simp [bind, Except.bind, and_assoc]

theorem bind_of_ok {x : Reading α} {f : α → Reading β} {a : α} (taken : x s = .ok (a, s')) :
    (x >>= f) s = f a s' := by
  show (StateT.bind x f) s = f a s'
  simp [StateT.bind, bind, Except.bind, taken]

theorem bind_eq_error {x : Reading α} {f : α → Reading β} {rejection : Rejection} :
    (x >>= f) s = .error rejection ↔
      x s = .error rejection ∨ ∃ a s', x s = .ok (a, s') ∧ f a s' = .error rejection := by
  show (StateT.bind x f) s = .error rejection ↔ _
  unfold StateT.bind
  cases outcome : x s with
  | error other => simp [bind, Except.bind]
  | ok taken =>
    obtain ⟨a, s'⟩ := taken
    simp [bind, Except.bind, and_assoc]

theorem map_eq_ok {x : Reading α} {f : α → β} {r : β × List Token} :
    (f <$> x) s = .ok r ↔ ∃ a, x s = .ok (a, r.2) ∧ f a = r.1 := by
  show (StateT.map f x) s = .ok r ↔ _
  unfold StateT.map
  obtain ⟨b, s'⟩ := r
  cases outcome : x s with
  | error rejection => simp [bind, Except.bind]
  | ok taken =>
    obtain ⟨a, s''⟩ := taken
    simp only [bind, Except.bind, pure, Except.pure, Except.ok.injEq, Prod.mk.injEq]
    constructor
    · rintro ⟨rfl, rfl⟩
      exact ⟨a, ⟨rfl, rfl⟩, rfl⟩
    · rintro ⟨_, ⟨rfl, rfl⟩, rfl⟩
      exact ⟨rfl, rfl⟩

@[simp] theorem pure_apply (a : α) : (pure a : Reading α) s = .ok (a, s) := rfl

@[simp] theorem get_apply : (get : Reading (List Token)) s = .ok (s, s) := rfl

@[simp] theorem set_apply : (set s' : Reading PUnit) s = .ok (⟨⟩, s') := rfl

@[simp] theorem throw_apply (rejection : Rejection) :
    (throw rejection : Reading α) s = .error rejection := rfl

@[simp] theorem reject_apply (expected : String) :
    (reject expected : Reading α) s = .error (.unexpected expected s) := rfl

/-! ### Single tokens -/

theorem accept_eq_true : accept text s = .ok (true, s') ↔ ∃ t, s = t :: s' ∧ t.isMark text := by
  cases s with
  | nil => simp [accept]
  | cons t rest => by_cases fits : t.isMark text <;> simp [accept, fits, and_assoc]

theorem accept_eq_false :
    accept text s = .ok (false, s') ↔ s = s' ∧ s.head?.any (Token.isMark text) = false := by
  cases s with
  | nil => simp [accept]
  | cons t rest => by_cases fits : t.isMark text <;> simp [accept, fits]

theorem expect_eq_ok {u : Unit} :
    expect text s = .ok (u, s') ↔ ∃ t, s = t :: s' ∧ t.isMark text := by
  rw [expect, bind_eq_ok]
  constructor
  · rintro ⟨found, rest, accepted, next⟩
    cases found with
    | false => simp at next
    | true =>
      cases next
      exact accept_eq_true.1 accepted
  · intro fits
    exact ⟨true, s', accept_eq_true.2 fits, rfl⟩

theorem identifier_eq_ok {name : Text} :
    identifier s = .ok (name, s') ↔
      ∃ t, s = t :: s' ∧ t.kind = .identifier ∧ (t.text : Text) = name := by
  cases s with
  | nil => simp [identifier]
  | cons t rest =>
    by_cases fits : t.kind = .identifier
    · simp [identifier, fits]
      grind
    · simp [identifier, fits]

theorem operator?_eq_some {texts : List String} {op : Text} :
    operator? texts s = .ok (some op, s') ↔
      ∃ t, s = t :: s' ∧ t.isOperator texts ∧ (t.text : Text) = op := by
  cases s with
  | nil => simp [operator?]
  | cons t rest =>
    by_cases fits : t.isOperator texts
    · simp [operator?, fits]
      grind
    · simp [operator?, fits]

theorem operator?_eq_none {texts : List String} :
    operator? texts s = .ok (none, s') ↔ s = s' ∧ s.head?.any (Token.isOperator texts) = false := by
  cases s with
  | nil => simp [operator?]
  | cons t rest => by_cases fits : t.isOperator texts <;> simp [operator?, fits]

end YapLang.Reading

namespace YapLang

/-! ### Tokens in other places -/

/-- The token in another place. -/
def Token.placed (place : Position → Position) (t : Token) : Token :=
  { t with position := place t.position }

namespace Token

variable (place : Position → Position) (t : Token)

theorem placed_id : placed id = id := rfl

@[simp] theorem placed_kind : (t.placed place).kind = t.kind := rfl

@[simp] theorem placed_text : (t.placed place).text = t.text := rfl

@[simp] theorem isMark_placed (text : String) : (t.placed place).isMark text = t.isMark text := rfl

@[simp] theorem isOperator_placed (texts : List String) :
    (t.placed place).isOperator texts = t.isOperator texts := rfl

end Token

/-- The same rejection of tokens in other places. -/
def Rejection.placed (place : Position → Position) : Rejection → Rejection
  | unexpected expected rest => unexpected expected (rest.map (Token.placed place))
  | strayJump jump rest => strayJump (jump.placed place) (rest.map (Token.placed place))
  | badTarget use start rest =>
    badTarget use (start.map (Token.placed place)) (rest.map (Token.placed place))
  | badNumber text => badNumber text
  | unhashable kind => unhashable kind
  | nestedTooDeeply => nestedTooDeeply

theorem Rejection.placed_id (rejection : Rejection) : rejection.placed id = rejection := by
  cases rejection <;> simp [Rejection.placed, Token.placed_id]

end YapLang

namespace YapLang.Reading

variable {α β : Type}

/-- What a step gives once its tokens stand in other places. -/
def placed (place : Position → Position) :
    Except Rejection (α × List Token) → Except Rejection (α × List Token)
  | .ok (a, rest) => .ok (a, rest.map (Token.placed place))
  | .error rejection => .error (rejection.placed place)

theorem placed_id (outcome : Except Rejection (α × List Token)) : placed id outcome = outcome := by
  cases outcome with
  | error rejection => simp [placed, Rejection.placed_id]
  | ok taken => simp [placed, Token.placed_id]

/-! ### Two readings -/

/-- What two readings may differ in: where the tokens of the second one stand, and whether it may
nest deeper. -/
structure Change where
  place : Position → Position
  nestsDeeper : Prop

/-- The second step gives what the first one gives, unless it may nest deeper and the first one runs
into the nesting limit. -/
def Agree (change : Change) (x y : Reading α) : Prop :=
  ∀ s, (change.nestsDeeper ∧ x s = .error .nestedTooDeeply) ∨
    y (s.map (Token.placed change.place)) = placed change.place (x s)

variable {change : Change}

namespace Agree

theorem pure (a : α) : Agree change (Pure.pure a) (Pure.pure a) :=
  fun _ => .inr rfl

theorem bind {x y : Reading α} {f g : α → Reading β} (first : Agree change x y)
    (next : ∀ a, Agree change (f a) (g a)) : Agree change (x >>= f) (y >>= g) := by
  intro s
  show (_ ∧ StateT.bind x f s = _) ∨ StateT.bind y g _ = placed _ (StateT.bind x f s)
  unfold StateT.bind
  -- if the first step reaches the limit, so does the sequence; otherwise both go on from one place
  rcases first s with ⟨deeper, limited⟩ | same
  · exact .inl ⟨deeper, by simp [limited, Bind.bind, Except.bind]⟩
  · rw [same]
    cases x s with
    | error rejection => exact .inr rfl
    | ok taken => exact next taken.1 taken.2

theorem map {x y : Reading α} (f : α → β) (inner : Agree change x y) :
    Agree change (f <$> x) (f <$> y) := by
  simp only [map_eq_pure_bind]
  exact inner.bind fun a => .pure _

theorem ite {c : Prop} [Decidable c] {x y x' y' : Reading α} (yes : Agree change x y)
    (no : Agree change x' y') : Agree change (if c then x else x') (if c then y else y') := by
  split
  · exact yes
  · exact no

/-- The two steps may depend on the tokens that are left. -/
theorem get {f g : List Token → Reading α}
    (next : ∀ s, Agree change (f s) (g (s.map (Token.placed change.place)))) :
    Agree change (MonadState.get >>= f) (MonadState.get >>= g) :=
  fun s => next s s

theorem set (s : List Token) :
    Agree change (MonadStateOf.set s : Reading PUnit)
      (MonadStateOf.set (s.map (Token.placed change.place))) :=
  fun _ => .inr rfl

theorem throw (rejection : Rejection) :
    Agree change (MonadExcept.throw rejection : Reading α)
      (MonadExcept.throw (rejection.placed change.place)) :=
  fun _ => .inr rfl

theorem reject (expected : String) :
    Agree change (Reading.reject expected : Reading α) (Reading.reject expected) :=
  fun _ => .inr rfl

theorem sees (text : String) : Agree change (Reading.sees text) (Reading.sees text) := by
  intro s
  cases s with
  | nil | cons => exact .inr rfl

theorem accept (text : String) : Agree change (Reading.accept text) (Reading.accept text) := by
  intro s
  cases s with
  | nil => exact .inr rfl
  | cons t rest =>
    right
    by_cases fits : t.isMark text
    · simp [Reading.accept, fits, placed]
    · simp [Reading.accept, fits, placed]

theorem expect (text : String) : Agree change (Reading.expect text) (Reading.expect text) :=
  (accept text).bind fun _ => .ite (.pure _) (.reject _)

theorem identifier : Agree change Reading.identifier Reading.identifier := by
  intro s
  cases s with
  | nil => exact .inr rfl
  | cons t rest =>
    right
    by_cases fits : t.kind = .identifier
    · simp [Reading.identifier, fits, placed]
    · simp [Reading.identifier, fits, placed, Rejection.placed]

theorem operator? (texts : List String) :
    Agree change (Reading.operator? texts) (Reading.operator? texts) := by
  intro s
  cases s with
  | nil => exact .inr rfl
  | cons t rest =>
    right
    by_cases fits : t.isOperator texts
    · simp [Reading.operator?, fits, placed]
    · simp [Reading.operator?, fits, placed]

end Agree

variable {τ : Type} (literal : String → Except Datum.Fault τ) (budget : Nat)

theorem moreItems_agree {x y : Reading α} (items : Agree change x y) (fuel : Nat) :
    Agree change (moreItems x fuel) (moreItems y fuel) := by
  induction fuel with
  | zero => exact .pure _
  | succ fuel ih =>
    refine (Agree.accept _).bind fun found => .ite ?_ (.pure _)
    exact items.bind fun first => ih.bind fun rest => .pure _

theorem itemsUntil_agree {x y : Reading α} (items : Agree change x y) (closing : String) :
    Agree change (itemsUntil budget x closing) (itemsUntil budget y closing) := by
  refine (Agree.accept _).bind fun found => .ite (.pure _) ?_
  exact items.bind fun first => (moreItems_agree items budget).bind fun rest =>
    (Agree.expect _).bind fun _ => .pure _

section

variable {x y : Reading (Tree τ)} (inner : Agree change x y)
include inner

theorem moreOperands_agree {level : Level τ} (blind : ∀ t, level (t.placed change.place) = level t)
    (fuel : Nat) (left : Tree τ) :
    Agree change (moreOperands level x fuel left) (moreOperands level y fuel left) := by
  induction fuel generalizing left with
  | zero => exact .pure _
  | succ fuel ih =>
    refine .get fun tokens => ?_
    cases tokens with
    | nil => exact .pure _
    | cons t rest =>
      simp only [List.map_cons, blind]
      split
      · exact .pure _
      · exact (Agree.set _).bind fun _ => inner.bind fun right => ih _

theorem operators_agree : Agree change (operators budget x) (operators budget y) := by
  have blind : ∀ level ∈ (levels : List (Level τ)), ∀ t,
      level (t.placed change.place) = level t := by
    intro level listed t
    simp only [levels, List.mem_cons, List.not_mem_nil, or_false] at listed
    rcases listed with rfl | rfl | rfl | rfl | rfl | rfl <;> rfl
  unfold operators
  -- the levels are nested from the loosest to the tightest
  generalize (levels : List (Level τ)) = levels at blind ⊢
  induction levels with
  | nil => exact inner
  | cons level rest ih =>
    have tighter := ih fun level listed => blind level (List.mem_cons_of_mem _ listed)
    exact tighter.bind fun first =>
      moreOperands_agree tighter (blind level List.mem_cons_self) budget first

theorem primary_agree : Agree change (primary literal budget x) (primary literal budget y) := by
  refine .get fun tokens => ?_
  cases tokens with
  | nil => exact .reject _
  | cons t rest =>
    simp only [List.map_cons, Token.placed_kind, Token.placed_text, Token.isMark_placed]
    split
    · split
      · exact (Agree.set _).bind fun _ => .pure _
      · exact .throw _
    · split
      · exact (Agree.set _).bind fun _ => .pure _
      · exact .reject _
      · exact .throw _
    · exact (Agree.set _).bind fun _ => .pure _
    · refine .ite ?_ (.ite ?_ (.reject _))
      · exact (Agree.set _).bind fun _ => inner.bind fun e => (Agree.expect _).bind fun _ => .pure _
      · refine (Agree.set _).bind fun _ => ?_
        exact (itemsUntil_agree budget inner "]").bind fun _ => .pure _

theorem suffixes_agree (fuel : Nat) (node : Tree τ) :
    Agree change (suffixes budget x fuel node) (suffixes budget y fuel node) := by
  induction fuel generalizing node with
  | zero => exact .pure _
  | succ fuel ih =>
    refine (Agree.accept _).bind fun found => .ite ?_ ?_
    · exact (itemsUntil_agree budget inner ")").bind fun args => ih _
    · refine (Agree.accept _).bind fun found => .ite ?_ ?_
      · exact Agree.identifier.bind fun name => ih _
      · refine (Agree.accept _).bind fun found => .ite ?_ (.pure _)
        exact inner.bind fun key => (Agree.expect _).bind fun _ => ih _

theorem updated_agree : Agree change (updated x) (updated y) := by
  refine .get fun start => inner.bind fun node => .get fun tokens => ?_
  cases tokens with
  | nil => exact .pure _
  | cons t rest =>
    refine .ite ?_ (.pure _)
    cases node
    case identifier name => exact (Agree.set rest).bind fun _ => .pure _
    all_goals exact .throw (.badTarget .update start (t :: rest))

end

/-- The nesting limits of two readings. -/
def Change.Limits (change : Change) (depth depth' : Nat) : Prop :=
  depth = depth' ∨ change.nestsDeeper ∧ depth ≤ depth'

theorem Change.Limits.succ {depth depth' : Nat} (limits : change.Limits (depth + 1) depth') :
    ∃ less, depth' = less + 1 ∧ change.Limits depth less := by
  rcases limits with rfl | ⟨deeper, below⟩
  · exact ⟨depth, rfl, .inl rfl⟩
  · exact ⟨depth' - 1, by omega, .inr ⟨deeper, by omega⟩⟩

/-- At the nesting limit nothing is read. -/
theorem agree_zero {x : Nat → Reading α} (limit : x 0 = throw .nestedTooDeeply) {depth : Nat}
    (limits : change.Limits 0 depth) : Agree change (x 0) (x depth) := by
  rcases limits with rfl | ⟨deeper, _⟩
  · rw [limit]
    exact .throw _
  · intro s
    rw [limit]
    -- only the shallower one is at its limit, and then it may be
    exact .inl ⟨deeper, rfl⟩

theorem expression_agree {depth depth' : Nat} (limits : change.Limits depth depth') :
    Agree change (expression literal budget depth) (expression literal budget depth') ∧
      Agree change (prefixed literal budget depth) (prefixed literal budget depth') ∧
      Agree change (chain literal budget depth) (chain literal budget depth') := by
  induction depth generalizing depth' with
  | zero =>
    exact ⟨agree_zero (by rw [expression]) limits, agree_zero (by rw [prefixed]) limits,
      agree_zero (by rw [chain]) limits⟩
  | succ depth ih =>
    -- each of the three calls the others one level further down only
    obtain ⟨less, rfl, below⟩ := limits.succ
    obtain ⟨expressions, prefixes, chains⟩ := ih below
    refine ⟨?_, ?_, ?_⟩
    · rw [expression, expression]
      refine .get fun start => (operators_agree budget prefixes).bind fun left =>
        (Agree.sees _).bind fun found => .ite ?_ (.pure _)
      cases left
      case identifier name =>
        exact (Agree.expect _).bind fun _ => expressions.bind fun value => .pure _
      all_goals exact .get fun rest => .throw (.badTarget .assignment start rest)
    · rw [prefixed, prefixed]
      refine (Agree.operator? _).bind fun found => ?_
      cases found with
      | none => exact updated_agree chains
      | some op => exact prefixes.bind fun operand => .pure _
    · rw [chain, chain]
      refine (Agree.accept _).bind fun found => .ite ?_ ?_
      · refine chains.bind fun node => ?_
        cases node
        case call => exact .pure _
        all_goals exact .reject _
      · exact (primary_agree literal budget expressions).bind fun first =>
          suffixes_agree budget expressions budget first

section

variable {x y : Reading (Tree τ)} (inner : Agree change x y)
include inner

theorem statementsUntil_agree (fuel : Nat) (before : List (Tree τ)) :
    Agree change (statementsUntil x fuel before) (statementsUntil y fuel before) := by
  induction fuel generalizing before with
  | zero => exact .reject _
  | succ fuel ih =>
    refine (Agree.accept _).bind fun found => .ite (.pure _) (.get fun tokens => ?_)
    rw [List.isEmpty_map]
    refine .ite (.reject _) ((Agree.accept _).bind fun found => .ite (ih _) ?_)
    exact inner.bind fun next => ih _

theorem block_agree : Agree change (block budget x) (block budget y) :=
  (Agree.expect _).bind fun _ => statementsUntil_agree inner budget []

theorem declaration_agree : Agree change (declaration x) (declaration y) := by
  refine (Agree.expect _).bind fun _ => Agree.identifier.bind fun name =>
    (Agree.accept _).bind fun found => .ite ?_ (.pure _)
  exact inner.bind fun init => .pure _

theorem optionalUnless_agree (mark : String) :
    Agree change (optionalUnless mark x) (optionalUnless mark y) := by
  refine (Agree.sees _).bind fun found => .ite (.pure _) ?_
  exact inner.bind fun e => .pure _

theorem returning_agree : Agree change (returning x) (returning y) := by
  refine (Agree.expect _).bind fun _ => ?_
  exact (optionalUnless_agree inner ";").bind fun argument => (Agree.expect _).bind fun _ => .pure _

theorem expressionStatement_agree :
    Agree change (expressionStatement x) (expressionStatement y) :=
  inner.bind fun _ => (Agree.expect _).bind fun _ => .pure _

theorem statementsToEnd_agree (fuel : Nat) (before : List (Tree τ)) :
    Agree change (statementsToEnd x fuel before) (statementsToEnd y fuel before) := by
  induction fuel generalizing before with
  | zero => exact .pure _
  | succ fuel ih =>
    refine .get fun tokens => ?_
    rw [List.isEmpty_map]
    refine .ite (.pure _) ((Agree.accept _).bind fun found => .ite (ih _) ?_)
    exact inner.bind fun next => ih _

end

theorem jump_agree (inLoop : Bool) (node : Tree τ) :
    Agree change (jump inLoop node) (jump inLoop node) := by
  intro s
  cases s with
  | nil => exact .inr rfl
  | cons t rest =>
    cases inLoop with
    | false => exact .inr rfl
    | true => exact ((Agree.expect ";").bind fun _ => .pure node) rest

section

variable {x y : Reading (Tree τ)} {body body' : Reading (List (Tree τ))}

theorem function_agree (bodies : Agree change body body') :
    Agree change (function budget body) (function budget body') := by
  refine (Agree.expect _).bind fun _ => Agree.identifier.bind fun name =>
    (Agree.expect _).bind fun _ => (itemsUntil_agree budget .identifier _).bind fun params => ?_
  exact bodies.bind fun _ => .pure _

theorem whileLoop_agree (inner : Agree change x y) (bodies : Agree change body body') :
    Agree change (whileLoop x body) (whileLoop y body') := by
  refine (Agree.expect _).bind fun _ => (Agree.expect _).bind fun _ =>
    inner.bind fun test => (Agree.expect _).bind fun _ => ?_
  exact bodies.bind fun _ => .pure _

theorem forLoop_agree (inner : Agree change x y) (bodies : Agree change body body') :
    Agree change (forLoop x body) (forLoop y body') := by
  -- what follows the first part is the same for both of its forms
  have rest (init : Option (Tree τ)) :
      Agree change
        (do
          expect ";"
          let test ← optionalUnless ";" x
          expect ";"
          let update ← optionalUnless ")" x
          expect ")"
          let body ← body
          return .forLoop init test update body : Reading (Tree τ))
        (do
          expect ";"
          let test ← optionalUnless ";" y
          expect ";"
          let update ← optionalUnless ")" y
          expect ")"
          let body ← body'
          return .forLoop init test update body) :=
    (Agree.expect _).bind fun _ => (optionalUnless_agree inner ";").bind fun test =>
      (Agree.expect _).bind fun _ => (optionalUnless_agree inner ")").bind fun update =>
        (Agree.expect _).bind fun _ => bodies.bind fun _ => .pure _
  refine (Agree.expect _).bind fun _ => (Agree.expect _).bind fun _ =>
    (Agree.sees _).bind fun found => .ite ?_ ?_
  · exact ((declaration_agree inner).map some).bind rest
  · exact (optionalUnless_agree inner ";").bind rest

end

theorem statement_agree {depth depth' : Nat} (limits : change.Limits depth depth')
    (inLoop : Bool) :
    Agree change (statement literal budget depth inLoop)
        (statement literal budget depth' inLoop) ∧
      Agree change (conditional literal budget depth inLoop)
        (conditional literal budget depth' inLoop) := by
  induction depth generalizing depth' inLoop with
  | zero =>
    constructor
    · exact agree_zero (x := fun depth => statement literal budget depth inLoop)
        (by rw [statement]) limits
    · exact agree_zero (x := fun depth => conditional literal budget depth inLoop)
        (by rw [conditional]) limits
  | succ depth ih =>
    obtain ⟨less, rfl, below⟩ := limits.succ
    have expressions := (expression_agree literal budget below).1
    have blocks (inLoop : Bool) := block_agree budget (ih below inLoop).1
    constructor
    · rw [statement, statement]
      refine .get fun tokens => ?_
      cases tokens with
      | nil => exact .reject _
      | cons t rest =>
        simp only [List.map_cons, Token.placed_kind, Token.placed_text, Token.isMark_placed]
        -- one case for each keyword, then a block, then an expression
        refine .ite ?_ (.ite ?_ ?_)
        · split
          · exact function_agree budget (blocks false)
          · exact (declaration_agree expressions).bind fun node =>
              (Agree.expect _).bind fun _ => .pure _
          · exact (ih below inLoop).2
          · exact forLoop_agree expressions (blocks true)
          · exact whileLoop_agree expressions (blocks true)
          · exact returning_agree expressions
          · exact jump_agree _ _
          · exact jump_agree _ _
          · exact .reject _
        · exact (blocks inLoop).bind fun body => .pure _
        · exact expressionStatement_agree expressions
    · rw [conditional, conditional]
      refine (Agree.expect _).bind fun _ => (Agree.expect _).bind fun _ =>
        expressions.bind fun test => (Agree.expect _).bind fun _ =>
          (blocks inLoop).bind fun consequent => (Agree.accept _).bind fun found =>
            .ite ?_ (.pure _)
      refine (Agree.sees _).bind fun found => .ite ?_ ?_
      · exact (ih below inLoop).2.bind fun alternate => .pure _
      · exact (blocks inLoop).bind fun alternate => .pure _

/-- Reading the tokens of a program twice. -/
theorem statements_agree {limit limit' : Nat} (limits : change.Limits limit limit') (fuel : Nat) :
    Agree change (statementsToEnd (statement literal budget limit false) fuel [])
      (statementsToEnd (statement literal budget limit' false) fuel []) :=
  statementsToEnd_agree (statement_agree literal budget limits false).1 fuel []

/-- A higher nesting limit changes nothing but whether the limit is reached. -/
theorem program_of_le {limit higher : Nat} (below : limit ≤ higher) (tokens : List Token) :
    program literal limit tokens = .error .nestedTooDeeply ∨
      program literal limit tokens = program literal higher tokens := by
  -- the tokens stay where they are
  let change : Change := ⟨id, True⟩
  have limits : change.Limits limit higher := .inr ⟨trivial, below⟩
  rcases statements_agree literal tokens.length limits (tokens.length + 1) tokens with
    ⟨_, limited⟩ | same
  · exact .inl (by simp [program, StateT.run, limited])
  · have same := same.trans (placed_id _)
    rw [show tokens.map (Token.placed change.place) = tokens by
      simp [change, Token.placed_id]] at same
    exact .inr (by simp [program, StateT.run, same])

/-- Where the tokens stand matters for the places of errors only. -/
theorem program_placed (place : Position → Position) (limit : Nat) (tokens : List Token) :
    program literal limit (tokens.map (Token.placed place)) =
      (program literal limit tokens).mapError (Rejection.placed place) := by
  -- the nesting limit stays the same, so reaching it is no excuse
  let change : Change := ⟨place, False⟩
  have limits : change.Limits limit limit := .inl rfl
  rcases statements_agree literal tokens.length limits (tokens.length + 1) tokens with
    ⟨never, _⟩ | same
  · exact never.elim
  · simp only [change] at same
    simp only [program, StateT.run, List.length_map, same]
    cases
      statementsToEnd (statement literal tokens.length limit false) (tokens.length + 1) [] tokens
      with
    | error rejection => rfl
    | ok taken => rfl

end YapLang.Reading
