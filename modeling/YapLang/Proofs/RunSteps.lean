import YapLang.Proofs.MachineSteps
import YapLang.Proofs.TextLetters

/-!
# A run is a sequence of steps

Evaluation is followed once, form by form, and taken apart into steps. It starts in a sound state,
in a scope that is there, with values whose references are there; so does every part of it, since
what is there stays there. A statement also needs room for the scopes that it can open. The values
that come out refer to what is there again. A run that halts has made its steps up to that point.
-/
namespace YapLang

open Machine

/-! ### Results that refer to nothing -/

namespace Value

variable {α : Type} {heap : Heap} {a b : Value}

/-- The value is not a reference. -/
def IsPlain : Value → Prop
  | array _ | closure _ | method .. => False
  | _ => True

theorem IsPlain.holds {m : Machine} {value : Value} (plain : value.IsPlain) : m.Holds value := by
  cases value with
  | array | closure | method => cases plain
  | _ => trivial

/-- The computation gives no reference. -/
def PlainResult (x : Except Fault Value) : Prop :=
  ∀ value, x = .ok value → value.IsPlain

namespace PlainResult

theorem ok {value : Value} (plain : value.IsPlain) : PlainResult (.ok value) := by
  rintro _ ⟨⟩
  exact plain

theorem error (fault : Fault) : PlainResult (.error fault) :=
  fun _ failed => nomatch failed

theorem bind {x : Except Fault α} {f : α → Except Fault Value} (next : ∀ a, PlainResult (f a)) :
    PlainResult (x >>= f) := by
  cases x with
  | error fault => exact error fault
  | ok a => exact next a

theorem map {x : Except Fault α} {f : α → Value} (plain : ∀ a, (f a).IsPlain) :
    PlainResult (x.map f) := by
  cases x with
  | error fault => exact error fault
  | ok a => exact ok (plain a)

end PlainResult

theorem plainResult_arithmetic {f : Float → Float → Float} : PlainResult (arithmetic heap f a b) :=
  .bind fun _ => .bind fun _ => .ok trivial

theorem plainResult_ordering {texts : Text → Text → Bool} {numbers : Float → Float → Bool} :
    PlainResult (ordering heap texts numbers a b) := by
  unfold ordering
  split
  · exact .ok trivial
  · exact .bind fun _ => .bind fun _ => .ok trivial

theorem plainResult_binary {op : Text} : PlainResult (binary heap op a b) := by
  unfold binary
  -- addition joins texts; the last case is that of an operator which does not exist
  split
  · split
    · exact .ok trivial
    · exact plainResult_arithmetic
  case h_6 | h_7 => exact .map fun _ => trivial
  case h_8 | h_9 => exact .ok trivial
  case h_10 | h_11 | h_12 | h_13 => exact plainResult_ordering
  case h_14 => exact .error _
  all_goals exact plainResult_arithmetic

theorem plainResult_unary {op : Text} : PlainResult (unary heap op a) := by
  unfold unary
  split
  · exact .ok trivial
  · exact .map fun _ => trivial
  · exact .map fun _ => trivial
  · exact .error _

end Value

/-- What a signal carries is there. -/
def Machine.HoldsSignal (m : Machine) : Signal → Prop
  | .returning value => m.Holds value
  | _ => True

namespace Run

variable {α β : Type} {room : LowerSet ℕ} {settings : Settings} {m : Machine}

/-- From the state, the run makes steps, and if it gives a value, then one of which the condition
holds in the state reached. -/
def Leads (room : LowerSet ℕ) (settings : Settings) (x : Run α) (m : Machine)
    (Q : α → Machine → Prop) : Prop :=
  match x m with
  | .ok a m' => Steps room settings m m' ∧ Q a m'
  | .error _ m' => Steps room settings m m'

/-- The run gives a value whose references are there. -/
abbrev Gives (room : LowerSet ℕ) (settings : Settings) (x : Run Value) (m : Machine) : Prop :=
  Leads room settings x m fun value m' => m'.Holds value

namespace Leads

variable {Q : α → Machine → Prop} {R : β → Machine → Prop}

/-! ### Rules -/

theorem pure {a : α} (holds : Q a m) : Leads room settings (Pure.pure a) m Q :=
  ⟨.refl, holds⟩

theorem throw (halt : Halt) : Leads room settings (MonadExcept.throw halt : Run α) m Q :=
  Relation.ReflTransGen.refl

theorem fail (fault : Fault) : Leads room settings (Run.fail fault : Run α) m Q :=
  throw (.fault fault)

theorem get {f : Machine → Run α} (next : Leads room settings (f m) m Q) :
    Leads room settings (MonadState.get >>= f) m Q :=
  next

/-- A run that is one step. -/
theorem step {x : Run α} {a : α} {m' : Machine} (outcome : x m = .ok a m')
    (step : Step room settings m m') (holds : Q a m') : Leads room settings x m Q := by
  unfold Leads
  rw [outcome]
  exact ⟨.single step, holds⟩

/-- A run that starts with a step. -/
theorem after {x : Run α} {f : Machine → Machine} (leads : Leads room settings x (f m) Q)
    (step : Step room settings m (f m)) : Leads room settings (fun m => x (f m)) m Q := by
  unfold Leads at leads ⊢
  dsimp only
  cases outcome : x (f m) with
  | error halt m' =>
    rw [outcome] at leads
    exact .head step leads
  | ok a m' =>
    rw [outcome] at leads
    exact ⟨.head step leads.1, leads.2⟩

/-- The second run starts in a sound state in which everything is still there. -/
theorem bind {x : Run α} {f : α → Run β} (sound : m.Sound room)
    (first : Leads room settings x m Q)
    (next : ∀ a m', Grows m m' → m'.Sound room → Q a m' → Leads room settings (f a) m' R) :
    Leads room settings (x >>= f) m R := by
  unfold Leads at first
  show match EStateM.bind x f m with
    | .ok b m' => Steps room settings m m' ∧ R b m'
    | .error _ m' => Steps room settings m m'
  unfold EStateM.bind
  cases outcome : x m with
  | error halt m' =>
    rw [outcome] at first
    exact first
  | ok a m' =>
    rw [outcome] at first
    obtain ⟨steps, holds⟩ := first
    -- the steps so far keep the state sound and what is there in place
    have rest := next a m' steps.grows (steps.sound sound) holds
    unfold Leads at rest
    dsimp only
    cases second : f a m' with
    | error halt last =>
      rw [second] at rest
      exact steps.trans rest
    | ok b last =>
      rw [second] at rest
      exact ⟨steps.trans rest.1, rest.2⟩

theorem compute {f : Heap → Except Fault α} (values : ∀ a, f m.heap = .ok a → Q a m) :
    Leads room settings (Run.compute f) m Q := by
  apply get
  cases outcome : f m.heap with
  | ok a => exact pure (values a outcome)
  | error fault => exact fail fault

/-! ### Lists -/

/-- The runs come one after another, and what one gives is still so after the others. -/
theorem mapM {f : α → Run β} {xs : List α} (sound : m.Sound room)
    (stable : ∀ b m₁ m₂, Grows m₁ m₂ → R b m₁ → R b m₂)
    (each : ∀ a ∈ xs, ∀ m', Grows m m' → m'.Sound room → Leads room settings (f a) m' R) :
    Leads room settings (xs.mapM f) m fun bs m' => ∀ b ∈ bs, R b m' := by
  induction xs generalizing m with
  | nil => exact pure (by simp)
  | cons a xs ih =>
    rw [List.mapM_cons]
    apply (each a (by simp) m (.refl m) sound).bind sound
    intro b m₁ grows₁ sound₁ holds
    refine (ih sound₁ ?_).bind sound₁ ?_
    · intro a member m' grows
      exact each a (by simp [member]) m' (grows₁.trans grows)
    · intro bs m₂ grows₂ _ others
      exact pure (List.forall_mem_cons.2 ⟨stable b m₁ m₂ grows₂ holds, others⟩)

theorem forM {f : α → Run PUnit} {xs : List α} (sound : m.Sound room)
    (each : ∀ a ∈ xs, ∀ m', Grows m m' → m'.Sound room →
      Leads room settings (f a) m' fun _ _ => True) :
    Leads room settings (xs.forM f) m fun _ _ => True := by
  induction xs generalizing m with
  | nil => exact pure trivial
  | cons a xs ih =>
    apply (each a (by simp) m (.refl m) sound).bind sound
    intro _ m₁ grows₁ sound₁ _
    apply ih sound₁
    intro a member m' grows
    exact each a (by simp [member]) m' (grows₁.trans grows)

/-! ### Statements in sequence and in loops -/

theorem inOrder {execute : Node → Run Signal} {body : List Node} (sound : m.Sound room)
    (each : ∀ node ∈ body, ∀ m', Grows m m' → m'.Sound room →
      Leads room settings (execute node) m' fun signal m' => m'.HoldsSignal signal) :
    Leads room settings (Run.inOrder execute body) m fun signal m' => m'.HoldsSignal signal := by
  induction body generalizing m with
  | nil => exact pure trivial
  | cons node rest ih =>
    apply (each node (by simp) m (.refl m) sound).bind sound
    intro signal m₁ grows₁ sound₁ holds
    cases signal with
    | normal =>
      apply ih sound₁
      intro node member m' grows
      exact each node (by simp [member]) m' (grows₁.trans grows)
    | breaking | continuing | returning => exact pure holds

theorem rounds {round : Run (Option α)} (patience : Nat) (sound : m.Sound room)
    (each : ∀ m', Grows m m' → m'.Sound room →
      Leads room settings round m' fun result m' => ∀ a ∈ result, Q a m') :
    Leads room settings (Run.rounds round patience) m Q := by
  induction patience generalizing m with
  | zero => exact throw _
  | succ patience ih =>
    apply (each m (.refl m) sound).bind sound
    intro result m₁ grows₁ sound₁ holds
    cases result with
    | some a => exact pure (holds a rfl)
    | none => exact ih sound₁ fun m' grows => each m' (grows₁.trans grows)

theorem loop {test : Run Bool} {body : Run Signal} {update : Run Unit} (sound : m.Sound room)
    (tests : ∀ m', Grows m m' → m'.Sound room → Leads room settings test m' fun _ _ => True)
    (bodies : ∀ m', Grows m m' → m'.Sound room →
      Leads room settings body m' fun signal m' => m'.HoldsSignal signal)
    (updates : ∀ m', Grows m m' → m'.Sound room → Leads room settings update m' fun _ _ => True) :
    Leads room settings (Run.loop settings test body update) m
      fun signal m' => m'.HoldsSignal signal := by
  apply rounds settings.patience sound
  intro m₁ grows₁ sound₁
  apply (tests m₁ grows₁ sound₁).bind sound₁
  intro goesOn m₂ grows₂ sound₂ _
  split
  · apply (bodies m₂ (grows₁.trans grows₂) sound₂).bind sound₂
    intro signal m₃ grows₃ sound₃ holds
    -- a round that is finished leads to the next one, with or without a jump
    have updated := (updates m₃ ((grows₁.trans grows₂).trans grows₃) sound₃).bind sound₃
      fun _ _ _ _ _ => pure (Q := fun result m' => ∀ a ∈ result, m'.HoldsSignal a)
        (a := (none : Option Signal)) (by simp)
    cases signal with
    | normal | continuing => exact updated
    | breaking => exact pure (by simp [HoldsSignal])
    | returning value => exact pure (by simpa using holds)
  · exact pure (by simp [HoldsSignal])

end Leads

/-! ### Names -/

theorem readName_gives (sound : m.Sound room) (scope : ScopeRef) (name : Text) :
    Gives room settings (readName scope name) m := by
  apply Leads.get
  cases found : m.scopes.get? name scope with
  | none => exact .fail _
  | some value =>
    -- the value is bound in the scope that the name leads to
    obtain ⟨owner, _, bound⟩ := Option.bind_eq_some_iff.1 found
    exact .pure (sound.bindings owner name value bound)

theorem declareName_leads {value : Value} (held : m.Holds value) (scope : ScopeRef)
    (name : Text) : Leads room settings (declareName scope name value) m fun _ _ => True :=
  .step rfl (.binds held) trivial

theorem assignName_gives {value : Value} (held : m.Holds value) (scope : ScopeRef)
    (name : Text) : Gives room settings (assignName scope name value) m := by
  apply Leads.get
  cases m.scopes.resolve? name scope with
  | none => exact .fail _
  | some owner => exact .step (a := value) rfl (.binds held) held

theorem openScope_leads {parent : ScopeRef} {depth : Nat} (sound : m.Sound room)
    (fits : m.Fits room parent (1 + depth)) :
    Leads room settings (openScope parent) m fun ref m' => m'.Fits room ref depth := by
  have step : Step room settings m { m with scopes := m.scopes.child parent } :=
    .opens (fits.mono (Nat.le_add_right 1 depth))
  have wellFormed := step.wellFormed sound.toWellFormed
  refine .step rfl step ⟨?_, ?_⟩
  · simp [HasScope, Scopes.next, Scopes.child]
  · -- the new scope is one higher than the one it is opened in, which stays where it is
    rw [Scopes.height_of_parent wellFormed.ordered (Scopes.parent?_child_next _ parent),
      step.grows.height sound.toWellFormed wellFormed fits.isThere, Nat.add_assoc]
    exact fits.hasRoom

/-! ### Arrays, functions and messages -/

theorem newArray_gives {items : Array Value} (held : ∀ value ∈ items, m.Holds value) :
    Gives room settings (newArray items) m :=
  .step rfl (.creates held) (by simp [Holds, HasArray])

theorem newClosure_gives {closure : Closure}
    (fits : m.Fits room closure.scope (1 + Tree.nestingOfAll closure.body)) :
    Gives room settings (newClosure closure) m :=
  .step rfl (.defines fits) (by simp [Holds])

theorem newMethod_gives {ref : ArrayRef} (isThere : m.HasArray ref) (name : ArrayMethod) :
    Gives room settings (newMethod name ref) m :=
  .step rfl (.passes rfl rfl rfl) isThere

theorem note_eq (settings : Settings) (level : Nat) (message : Heap → Text) (m : Machine) :
    note settings level message m = .ok ⟨⟩ (m.logged settings ⟨level, message m.heap⟩) := by
  by_cases wanted : level ≤ settings.verbosity
  · simp only [note, logged, if_pos wanted]
    rfl
  · simp only [note, logged, if_neg wanted]
    rfl

theorem step_logged {entry : LogEntry} (other : entry.isChange = false) :
    Step room settings m (m.logged settings entry) := by
  refine .passes rfl rfl ?_
  unfold changeEntries logged
  split
  · simp [List.filter_append, other]
  · rfl

theorem note_leads {level : Nat} {message : Heap → Text}
    (other : (⟨level, message m.heap⟩ : LogEntry).isChange = false) :
    Leads room settings (note settings level message) m fun _ _ => True :=
  .step (note_eq settings level message m) (step_logged other) trivial

/-! A message that tells of a change has its level, starts with a certain letter and does not end
with a bracket. -/

theorem isChange_of_level {level : Nat} {message : Text} (other : level ≠ 3) :
    (⟨level, message⟩ : LogEntry).isChange = false := by
  simp [LogEntry.isChange, other]

theorem isChange_of_head {level : Nat} {message : Text}
    (other : message.letters.head? ≠ some (.char 'c')) :
    (⟨level, message⟩ : LogEntry).isChange = false := by
  simp only [LogEntry.isChange, LogEntry.mk.injEq, Bool.or_eq_false_iff, decide_eq_false_iff_not]
  constructor
  all_goals
    rintro ⟨_, rfl⟩
    exact other (by decide)

theorem isChange_of_last {level : Nat} {message : Text}
    (last : message.letters.getLast? = some (.char ')')) :
    (⟨level, message⟩ : LogEntry).isChange = false := by
  simp only [LogEntry.isChange, LogEntry.mk.injEq, Bool.or_eq_false_iff, decide_eq_false_iff_not]
  constructor
  all_goals
    rintro ⟨_, rfl⟩
    revert last
    decide

theorem itemAt_eq_some {get? : Nat → Option α} {index : Float} {a : α}
    (found : itemAt get? index = some a) : ∃ i, get? i = some a := by
  unfold itemAt at found
  split at found
  next i _ => exact ⟨i, found⟩
  · cases found

theorem holds_items {ref : ArrayRef} {i : Nat} {value : Value} (sound : m.Sound room)
    (found : (m.heap.items ref)[i]? = some value) : m.Holds value :=
  sound.items ref value (Array.mem_of_getElem? found)

/-- The members of the namespace are constants and built-in functions. -/
theorem number_or_builtin_of_member? {name : Text} {value : Value}
    (found : MathFunction.member? name = some value) :
    (∃ x, value = .number x) ∨ ∃ function, value = .builtin function := by
  unfold MathFunction.member? at found
  split at found
  · exact .inl ⟨_, (Option.some.inj found).symm⟩
  · exact .inl ⟨_, (Option.some.inj found).symm⟩
  · obtain ⟨function, _, rfl⟩ := Option.map_eq_some_iff.1 found
    exact .inr ⟨_, rfl⟩

theorem readMember_gives {target key : Value} (sound : m.Sound room) (held : m.Holds target) :
    Gives room settings (readMember target key) m := by
  apply Leads.get
  dsimp only
  split
  · exact .fail _
  · -- an item of an array is held by the state
    apply Leads.pure
    cases found : itemAt ((m.heap.items _)[·]?) _ with
    | none => trivial
    | some value =>
      obtain ⟨i, found⟩ := itemAt_eq_some found
      exact holds_items sound found
  · apply Leads.pure
    cases itemAt _ _ <;> trivial
  · split
    · exact .pure trivial
    · split
      · exact newMethod_gives held _
      · exact .pure trivial
  · apply Leads.pure
    split <;> trivial
  · apply Leads.pure
    cases found : MathFunction.member? (key.toText m.heap) with
    | none => trivial
    | some value =>
      rcases number_or_builtin_of_member? found with ⟨x, rfl⟩ | ⟨function, rfl⟩
      · trivial
      · trivial
  · exact .pure trivial

/-! ### Built-in functions -/

theorem number_leads (value : Value) : Leads room settings (number value) m fun _ _ => True :=
  .compute fun _ _ => trivial

theorem write_leads {text : Text} :
    Leads room settings (write settings text) m fun _ _ => True := by
  unfold write
  split
  · exact .fail _
  · exact .step rfl (.passes rfl rfl rfl) trivial

theorem drawNumber_leads : Leads room settings drawNumber m fun _ _ => True :=
  .step rfl (.passes rfl rfl rfl) trivial

theorem callBuiltin_gives (sound : m.Sound room) (function : Builtin) (args : List Value) :
    Gives room settings (callBuiltin settings function args) m := by
  unfold callBuiltin
  -- printing, drawing a random number, and arithmetic on numbers
  split
  · apply Leads.get
    exact Leads.bind sound write_leads fun _ _ _ _ _ => .pure trivial
  · exact Leads.bind sound drawNumber_leads fun _ _ _ _ _ => .pure trivial
  · refine (Leads.mapM sound (fun _ _ _ _ _ => trivial) ?_).bind sound
      fun _ _ _ _ _ => .pure trivial
    exact fun value _ _ _ _ => number_leads value

/-- With the right number of arguments, the call is logged and then made. -/
theorem callNative_eq (settings : Settings) (name : String) {arity? : Option Nat}
    {args : List Value} (body : Run Value) (m : Machine)
    (fits : ∀ arity ∈ arity?, args.length = arity) :
    callNative settings name arity? args body m =
      body (m.logged settings ⟨3, "call native " ++ name⟩) := by
  have noted := note_eq settings 3 (fun _ => "call native " ++ name) m
  cases arity? with
  | none =>
    simp only [callNative]
    show EStateM.bind (note _ _ _) _ m = _
    rw [EStateM.bind, noted]
  | some arity =>
    have enough := fits arity rfl
    simp only [callNative, enough, ne_eq, not_true_eq_false, if_false]
    show EStateM.bind (note _ _ _) _ m = _
    rw [EStateM.bind, noted]

theorem callNative_gives {name : String} {arity? : Option Nat} {args : List Value}
    {body : Run Value} (bodies : (∀ arity ∈ arity?, args.length = arity) →
      Gives room settings (fun m => body (m.logged settings ⟨3, "call native " ++ name⟩)) m) :
    Gives room settings (callNative settings name arity? args body) m := by
  by_cases fits : ∀ arity ∈ arity?, args.length = arity
  -- the message comes first, and the rest starts where it was logged
  · have leads := bodies fits
    unfold Gives Leads at leads ⊢
    rw [callNative_eq settings name body m fits]
    exact leads
  · -- otherwise nothing has happened when the call is refused
    cases arity? with
    | none => simp at fits
    | some arity =>
      have refused : args.length ≠ arity := by simpa using fits
      simp only [callNative, if_pos refused]
      exact Leads.fail _

theorem modify_pop_of_empty {ref : ArrayRef} (empty : m.heap.items ref = #[]) :
    m.heap.arrays.modify ref.index Array.pop = m.heap.arrays := by
  apply Array.ext_getElem?
  intro i
  rw [Array.getElem?_modify]
  split
  next same =>
    subst same
    rw [Heap.items, Array.getD_eq_getD_getElem?] at empty
    cases found : m.heap.arrays[ref.index]? with
    | none => rfl
    | some items =>
      rw [found] at empty
      simp only [Option.getD_some] at empty
      simp [empty]
  · rfl

theorem popItem_eq (ref : ArrayRef) (m : Machine) :
    popItem ref m = .ok ((m.heap.items ref).back?.getD .undefined)
      { m with heap := { m.heap with arrays := m.heap.arrays.modify ref.index Array.pop } } := by
  rw [popItem, get_bind]
  cases found : (m.heap.items ref).back? with
  | some last => rfl
  | none =>
    -- popping from an empty array changes nothing
    rw [modify_pop_of_empty (Array.back?_eq_none_iff.1 found)]
    rfl

/-- A call of `push` or `pop` is one step, together with the message about it. -/
theorem callMethod_gives {ref : ArrayRef} {args : List Value} (sound : m.Sound room)
    (held : ∀ value ∈ args, m.Holds value) (method : ArrayMethod) :
    Gives room settings (callNative settings method.name method.arity? args
      (callMethod method ref args)) m := by
  apply callNative_gives
  intro fits
  cases method with
  | push =>
    have step : Step room settings m (m.change settings ref (.push args)) := .changes held
    exact .step rfl step trivial
  | pop =>
    have step : Step room settings m (m.change settings ref .pop) :=
      .changes (by simp [ItemChange.values])
    refine .step (popItem_eq ref _) step (step.grows.holds ?_)
    show m.Holds ((m.heap.items ref).back?.getD .undefined)
    cases found : (m.heap.items ref).back? with
    | none => trivial
    | some last => exact sound.items ref last (Array.mem_of_back? found)
  | join => exact .step rfl (step_logged (by decide)) trivial
  | indexOf =>
    refine .step rfl (step_logged (by decide)) ?_
    unfold indexOfItem
    split <;> trivial

theorem isChange_builtin (function : Builtin) :
    (⟨3, "call native " ++ function.name⟩ : LogEntry).isChange = false := by
  cases function with
  | print => decide
  | math function => cases function <;> decide

theorem callNative_builtin_gives (sound : m.Sound room) (function : Builtin) (args : List Value) :
    Gives room settings (callNative settings function.name function.arity? args
      (callBuiltin settings function args)) m := by
  apply callNative_gives
  intro _
  have step : Step room settings m _ := step_logged (isChange_builtin function)
  exact (callBuiltin_gives (step.sound sound) function args).after step

/-! ### Evaluation -/

/-- As far as evaluation goes, its runs are made of steps. -/
structure Stepwise (room : LowerSet ℕ) (settings : Settings) (depth : Nat) : Prop where
  evaluate : ∀ {m : Machine} {scope : ScopeRef} (node : Node), m.Sound room → m.HasScope scope →
    Gives room settings (evaluate settings depth scope node) m
  execute : ∀ {m : Machine} {scope : ScopeRef} {node : Node}, m.Sound room →
    m.Fits room scope node.nesting →
    Leads room settings (execute settings depth scope node) m
      fun signal m' => m'.HoldsSignal signal
  call : ∀ {m : Machine} {function : Value} {args : List Value} (description : Text),
    m.Sound room → m.Holds function → (∀ value ∈ args, m.Holds value) →
    Gives room settings (call settings depth function args description) m

variable {depth : Nat} {scope : ScopeRef}

theorem Stepwise.evaluateAll (inner : Stepwise room settings depth) (nodes : List Node)
    (sound : m.Sound room) (isThere : m.HasScope scope) :
    Leads room settings (nodes.mapM (Run.evaluate settings depth scope)) m
      fun values m' => ∀ value ∈ values, m'.Holds value :=
  .mapM sound (fun _ _ _ grows held => grows.holds held) fun node _ _ grows sound =>
    inner.evaluate node sound (grows.hasScope isThere)

theorem evaluate_stepwise (inner : Stepwise room settings depth) (node : Node)
    (sound : m.Sound room) (isThere : m.HasScope scope) :
    Gives room settings (evaluate settings (depth + 1) scope node) m := by
  -- whatever is evaluated first, the scope is still there for the rest
  have eval (node : Node) {m' : Machine} (grows : Grows m m') (sound : m'.Sound room) :=
    inner.evaluate node sound (grows.hasScope isThere)
  have here := Grows.refl m
  cases node <;> simp only [Run.evaluate]
  case number value =>
    refine Leads.bind (Q := fun _ _ => True) sound ?_ fun _ _ _ _ _ => .pure trivial
    exact .compute fun _ _ => trivial
  case text value => exact .pure trivial
  case identifier name => exact readName_gives sound scope name
  case binary op left right =>
    apply (eval left here sound).bind sound
    intro a m₁ grows₁ sound₁ _
    apply (eval right grows₁ sound₁).bind sound₁
    intro b m₂ _ _ _
    exact .compute fun value outcome => (Value.plainResult_binary value outcome).holds
  case logical op left right =>
    apply (eval left here sound).bind sound
    intro a m₁ grows₁ sound₁ held
    split
    · split
      · exact eval right grows₁ sound₁
      · exact .pure held
    · split
      · exact .pure held
      · exact eval right grows₁ sound₁
    · exact .fail _
  case unary op operand =>
    apply (eval operand here sound).bind sound
    intro a m₁ _ _ _
    exact .compute fun value outcome => (Value.plainResult_unary value outcome).holds
  case assignment target value =>
    apply (eval value here sound).bind sound
    intro a m₁ _ _ held
    exact assignName_gives held scope target
  case update op target =>
    apply (readName_gives sound scope target).bind sound
    intro old m₁ _ sound₁ _
    apply (number_leads old).bind sound₁
    intro x m₂ _ sound₂ _
    refine Leads.bind (Q := fun _ _ => True) sound₂ (.compute fun _ _ => trivial) ?_
    intro y m₃ _ _ _
    have held : m₃.Holds (.number y) := trivial
    exact assignName_gives held scope target
  case call callee args =>
    apply (eval callee here sound).bind sound
    intro function m₁ grows₁ sound₁ held
    apply (inner.evaluateAll args sound₁ (grows₁.hasScope isThere)).bind sound₁
    intro values m₂ grows₂ sound₂ areHeld
    exact inner.call _ sound₂ (grows₂.holds held) areHeld
  case property object name =>
    apply (eval object here sound).bind sound
    intro target m₁ _ sound₁ held
    exact readMember_gives sound₁ held
  case index object key =>
    apply (eval object here sound).bind sound
    intro target m₁ grows₁ sound₁ held
    apply (eval key grows₁ sound₁).bind sound₁
    intro key m₂ grows₂ sound₂ _
    exact readMember_gives sound₂ (grows₂.holds held)
  case array elements =>
    apply (inner.evaluateAll elements sound isThere).bind sound
    intro items m₁ _ _ areHeld
    exact newArray_gives (by simpa using areHeld)
  all_goals exact .fail _

/-- A block needs room for its own scope and for those of its statements. -/
theorem inBlock_stepwise (inner : Stepwise room settings depth) {body : List Node}
    (sound : m.Sound room) (fits : m.Fits room scope (1 + Tree.nestingOfAll body)) :
    Leads room settings (inBlock (execute settings depth) scope body) m
      fun signal m' => m'.HoldsSignal signal := by
  apply (openScope_leads sound fits).bind sound
  intro inside m₁ _ sound₁ insideFits
  apply Leads.inOrder sound₁
  intro node member m₂ grows₂ sound₂
  have fits₂ := insideFits.grows sound₁.toWellFormed sound₂.toWellFormed grows₂
  exact inner.execute sound₂ (fits₂.mono (Tree.nesting_le_nestingOfAll member))

/-- An expression that may be left out, followed by something that always gives a value. -/
theorem optional_stepwise (inner : Stepwise room settings depth) (expr : Option Node)
    (f : Value → α) (a : α) (sound : m.Sound room) (isThere : m.HasScope scope) :
    Leads room settings
      (match expr with
        | some expr => return f (← evaluate settings depth scope expr)
        | none => return a) m fun _ _ => True := by
  cases expr with
  | none => exact .pure trivial
  | some expr =>
    exact (inner.evaluate expr sound isThere).bind sound fun _ _ _ _ _ => .pure trivial

/-- The rounds of a loop are blocks in one scope. -/
theorem loop_stepwise (inner : Stepwise room settings depth) {test : Run Bool} {update : Run Unit}
    {body : List Node} (sound : m.Sound room)
    (fits : m.Fits room scope (1 + Tree.nestingOfAll body))
    (tests : ∀ m', m'.Sound room → m'.HasScope scope → Leads room settings test m' fun _ _ => True)
    (updates : ∀ m', m'.Sound room → m'.HasScope scope →
      Leads room settings update m' fun _ _ => True) :
    Leads room settings (loop settings test (inBlock (execute settings depth) scope body) update) m
      fun signal m' => m'.HoldsSignal signal := by
  refine Leads.loop sound ?_ ?_ ?_
  · intro m₁ grows₁ sound₁
    exact tests m₁ sound₁ (grows₁.hasScope fits.isThere)
  · intro m₁ grows₁ sound₁
    exact inBlock_stepwise inner sound₁ (fits.grows sound.toWellFormed sound₁.toWellFormed grows₁)
  · intro m₁ grows₁ sound₁
    exact updates m₁ sound₁ (grows₁.hasScope fits.isThere)

theorem declaration_stepwise (inner : Stepwise room settings depth) (name : Text)
    (init : Option Node) (sound : m.Sound room) (isThere : m.HasScope scope) :
    Leads room settings (execute settings (depth + 1) scope (.declaration name init)) m
      fun signal m' => m'.HoldsSignal signal := by
  have declared {m : Machine} {value : Value} (sound : m.Sound room) (held : m.Holds value) :
      Leads room settings (do
        declareName scope name value
        note settings 2 fun heap => "declare " ++ name ++ " = " ++ value.toText heap
        return Signal.normal) m fun signal m' => m'.HoldsSignal signal := by
    apply (declareName_leads held scope name).bind sound
    intro _ m₁ _ sound₁ _
    apply (note_leads (isChange_of_level (by decide))).bind sound₁
    intro _ m₂ _ _ _
    exact .pure trivial
  simp only [Run.execute]
  cases init with
  | none => exact declared sound trivial
  | some expr =>
    apply (inner.evaluate expr sound isThere).bind sound
    intro value m₁ _ sound₁ held
    exact declared sound₁ held

theorem execute_stepwise (inner : Stepwise room settings depth) {node : Node}
    (sound : m.Sound room) (fits : m.Fits room scope node.nesting) :
    Leads room settings (execute settings (depth + 1) scope node) m
      fun signal m' => m'.HoldsSignal signal := by
  have isThere := fits.isThere
  cases node
  case declaration name init => exact declaration_stepwise inner name init sound isThere
  all_goals simp only [Run.execute]
  case statement expr =>
    exact (inner.evaluate expr sound isThere).bind sound fun _ _ _ _ _ => .pure trivial
  case function name params body =>
    apply (newClosure_gives fits).bind sound
    intro value m₁ _ sound₁ held
    apply (declareName_leads held scope name).bind sound₁
    intro _ m₂ _ sound₂ _
    apply (note_leads (isChange_of_level (by decide))).bind sound₂
    intro _ m₃ _ _ _
    exact .pure trivial
  case block body => exact inBlock_stepwise inner sound fits
  case conditional test consequent alternate =>
    rw [Tree.nesting] at fits
    apply (inner.evaluate test sound isThere).bind sound
    intro value m₁ grows₁ sound₁ _
    apply Leads.bind (Q := fun _ _ => True) sound₁ (note_leads (isChange_of_head (by simp)))
    intro _ m₂ grows₂ sound₂ _
    -- the test has left the scope where it was
    have fits₂ := fits.grows sound.toWellFormed sound₂.toWellFormed (grows₁.trans grows₂)
    split
    · exact inBlock_stepwise inner sound₂ (fits₂.mono (Nat.le_max_left _ _))
    · cases alternate with
      | none => exact .pure trivial
      | some node => exact inner.execute sound₂ (fits₂.mono (Nat.le_max_right _ _))
  case whileLoop test body =>
    refine loop_stepwise inner sound fits ?_ fun _ _ _ => .pure trivial
    exact fun _ => optional_stepwise inner (some test) Value.isTruthy true
  case forLoop init test update body =>
    apply (openScope_leads sound fits).bind sound
    intro inside m₁ _ sound₁ insideFits
    -- the loop itself is the same after all three ways to start
    have rounds {m₂ : Machine} (grows₂ : Grows m₁ m₂) (sound₂ : m₂.Sound room) :=
      loop_stepwise inner sound₂
        (insideFits.grows sound₁.toWellFormed sound₂.toWellFormed grows₂)
        (fun _ => optional_stepwise inner test Value.isTruthy true)
        (fun _ => optional_stepwise inner update (fun _ => ()) ())
    split
    · exact rounds (.refl m₁) sound₁
    · apply (inner.execute sound₁ (insideFits.mono (Nat.zero_le _))).bind sound₁
      intro _ m₂ grows₂ sound₂ _
      exact rounds grows₂ sound₂
    · apply (inner.evaluate _ sound₁ insideFits.isThere).bind sound₁
      intro _ m₂ grows₂ sound₂ _
      exact rounds grows₂ sound₂
  case returning argument =>
    cases argument with
    | none => exact .pure trivial
    | some expr =>
      apply (inner.evaluate expr sound isThere).bind sound
      intro value m₁ _ _ held
      exact .pure held
  case breakJump | continueJump => exact .pure trivial
  all_goals exact .fail _

theorem call_stepwise (inner : Stepwise room settings depth) {function : Value} {args : List Value}
    (description : Text) (sound : m.Sound room) (held : m.Holds function)
    (areHeld : ∀ value ∈ args, m.Holds value) :
    Gives room settings (call settings (depth + 1) function args description) m := by
  cases function <;> simp only [Run.call]
  case builtin function => exact callNative_builtin_gives sound function args
  case method stamp method receiver => exact callMethod_gives sound areHeld method
  case closure ref =>
    apply Leads.get
    split
    · exact .fail _
    next closure found =>
      -- there was room for a call when the function was created
      have fits := sound.bodies closure (Array.mem_of_getElem? found)
      split
      · exact .fail _
      -- the message ends with a bracket, whatever the function is called
      have noted : (⟨3, "call " ++ closure.name ++ "(" ++ Value.argumentsText m.heap args ++ ")"⟩ :
          LogEntry).isChange = false := by
        apply isChange_of_last
        rw [Text.letters_append, List.getLast?_append]
        rfl
      apply (note_leads noted).bind sound
      intro _ m₁ grows₁ sound₁ _
      have fits₁ := fits.grows sound.toWellFormed sound₁.toWellFormed grows₁
      -- wherever the call is made, its scope is opened in the one that the function was declared in
      apply (openScope_leads sound₁ fits₁).bind sound₁
      intro inside m₂ grows₂ sound₂ insideFits
      refine (Leads.forM sound₂ ?_).bind sound₂ ?_
      · intro binding member m₃ grows₃ _
        have isHeld := areHeld binding.2 (List.of_mem_zip member).2
        exact declareName_leads (((grows₁.trans grows₂).trans grows₃).holds isHeld) inside binding.1
      · intro _ m₃ grows₃ sound₃ _
        refine Leads.bind sound₃ (Leads.inOrder sound₃ ?_) ?_
        · intro node member m₄ grows₄ sound₄
          have fits₄ := insideFits.grows sound₂.toWellFormed sound₄.toWellFormed
            (grows₃.trans grows₄)
          exact inner.execute sound₄ (fits₄.mono (Tree.nesting_le_nestingOfAll member))
        · intro signal m₄ _ _ holds
          cases signal with
          | normal => exact .pure trivial
          | returning value => exact .pure holds
          | breaking | continuing => exact .fail _
  all_goals exact .fail _

/-- By induction on how deep evaluation may go. -/
theorem stepwise (room : LowerSet ℕ) (settings : Settings) (depth : Nat) :
    Stepwise room settings depth := by
  induction depth with
  | zero =>
    constructor
    · intro m scope node _ _
      rw [evaluate]
      exact .fail _
    · intro m scope node _ _
      rw [execute]
      exact .fail _
    · intro m function args description _ _ _
      rw [call]
      exact .fail _
  | succ depth ih =>
    exact ⟨evaluate_stepwise ih, execute_stepwise ih, call_stepwise ih⟩

theorem program_stepwise (settings : Settings) (limit : Nat) {body : List Node}
    (sound : m.Sound room) (fits : m.Fits room scope (Tree.nestingOfAll body)) :
    Gives room settings (program settings limit scope body) m := by
  unfold program
  apply (note_leads (isChange_of_level (by decide))).bind sound
  intro _ m₁ grows₁ sound₁ _
  refine (Leads.inOrder sound₁ ?_).bind sound₁ ?_
  · intro node member m₂ grows₂ sound₂
    have fits₂ := fits.grows sound.toWellFormed sound₂.toWellFormed (grows₁.trans grows₂)
    exact (stepwise room settings limit).execute sound₂
      (fits₂.mono (Tree.nesting_le_nestingOfAll member))
  · intro signal m₂ _ sound₂ holds
    cases signal with
    | breaking | continuing => exact .fail _
    | normal =>
      exact (note_leads (isChange_of_level (by decide))).bind sound₂ fun _ _ _ _ _ => .pure trivial
    | returning value =>
      apply (note_leads (isChange_of_level (by decide))).bind sound₂
      intro _ m₃ grows₃ _ _
      exact .pure (grows₃.holds holds)

end Run

end YapLang
