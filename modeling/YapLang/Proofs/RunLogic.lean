import YapLang.Machine.Start

/-!
# Reasoning about runs

A run that starts in a state with some property and keeps it, gives values of one kind and halts for
reasons of another: one statement for these three, with a rule for each way of putting runs
together. Evaluation is then followed step by step. The reason for a halt and the property of the
state are parameters; what the built-in functions do to a state is said once, for all properties
that depend on the scopes and the user functions alone.
-/
namespace YapLang

/-! ### Conversions to numbers -/

namespace Value

variable {α β : Type}

/-- The computation fails on an integer beyond the doubles only. -/
def OnlyRange (x : Except Fault α) : Prop :=
  ∀ fault, x = .error fault → fault = .integerTooLarge

namespace OnlyRange

theorem ok (a : α) : OnlyRange (.ok a) :=
  fun _ failed => nomatch failed

theorem tooLarge : OnlyRange (.error .integerTooLarge : Except Fault α) := by
  rintro _ ⟨⟩
  rfl

theorem bind {x : Except Fault α} {f : α → Except Fault β} (first : OnlyRange x)
    (next : ∀ a, OnlyRange (f a)) : OnlyRange (x >>= f) := by
  cases x with
  | error fault =>
    rw [first fault rfl]
    exact tooLarge
  | ok a => exact next a

theorem map {x : Except Fault α} {f : α → β} (inner : OnlyRange x) : OnlyRange (x.map f) := by
  cases x with
  | error fault =>
    rw [inner fault rfl]
    exact tooLarge
  | ok a => exact ok _

end OnlyRange

theorem onlyRange_textNumber (s : Text) : OnlyRange (textNumber s) := by
  unfold textNumber
  split
  · split
    · exact .ok _
    · exact .tooLarge
  · exact .ok _

theorem onlyRange_toNumber {heap : Heap} {value : Value} : OnlyRange (value.toNumber heap) := by
  unfold toNumber
  split
  case h_2 => exact onlyRange_textNumber _
  case h_4 =>
    split
    · exact .ok _
    · exact onlyRange_textNumber _
    · exact .ok _
  all_goals exact .ok _

theorem onlyRange_looseEquals {heap : Heap} {a b : Value} : OnlyRange (looseEquals heap a b) := by
  unfold looseEquals
  split
  · exact .ok _
  · split
    case h_2 | h_3 | h_4 | h_5 => exact (onlyRange_textNumber _).map
    all_goals exact .ok _

end Value

namespace Run

variable {α β : Type} {I : Machine → Prop} {Q : α → Prop} {E : Halt → Prop}

theorem bind_of_ok {x : Run α} {f : α → Run β} {m m' : Machine} {a : α} (outcome : x m = .ok a m') :
    (x >>= f) m = f a m' := by
  show EStateM.bind x f m = f a m'
  rw [EStateM.bind, outcome]

theorem bind_of_error {x : Run α} {f : α → Run β} {m m' : Machine} {halt : Halt}
    (outcome : x m = .error halt m') : (x >>= f) m = .error halt m' := by
  show EStateM.bind x f m = .error halt m'
  rw [EStateM.bind, outcome]

/-- Started in a state with the property, the run keeps it, whether it gives a value or halts. -/
def Ensures (I : Machine → Prop) (x : Run α) (Q : α → Prop) (E : Halt → Prop) : Prop :=
  ∀ m, I m →
    match x m with
    | .ok a m' => Q a ∧ I m'
    | .error halt m' => E halt ∧ I m'

namespace Ensures

/-! ### Rules -/

theorem pure {a : α} (holds : Q a) : Ensures I (Pure.pure a) Q E :=
  fun _ kept => ⟨holds, kept⟩

theorem throw {halt : Halt} (allowed : E halt) : Ensures I (MonadExcept.throw halt : Run α) Q E :=
  fun _ kept => ⟨allowed, kept⟩

theorem fail {fault : Fault} (allowed : E (.fault fault)) :
    Ensures I (Run.fail fault : Run α) Q E :=
  throw allowed

theorem bind {R : β → Prop} {x : Run α} {f : α → Run β} (first : Ensures I x Q E)
    (next : ∀ a, Q a → Ensures I (f a) R E) : Ensures I (x >>= f) R E := by
  intro m kept
  have firstKept := first m kept
  show match EStateM.bind x f m with
    | .ok b m' => R b ∧ I m'
    | .error halt m' => E halt ∧ I m'
  unfold EStateM.bind
  -- a run that halts keeps the property too, so the second one is asked only after a value
  cases outcome : x m with
  | ok a m' =>
    rw [outcome] at firstKept
    exact next a firstKept.1 m' firstKept.2
  | error halt m' =>
    rw [outcome] at firstKept
    exact firstKept

theorem mono {Q' : α → Prop} {E' : Halt → Prop} {x : Run α} (ensures : Ensures I x Q E)
    (values : ∀ a, Q a → Q' a) (halts : ∀ halt, E halt → E' halt) : Ensures I x Q' E' := by
  intro m kept
  have ensured := ensures m kept
  cases outcome : x m with
  | ok a m' =>
    rw [outcome] at ensured
    exact ⟨values a ensured.1, ensured.2⟩
  | error halt m' =>
    rw [outcome] at ensured
    exact ⟨halts halt ensured.1, ensured.2⟩

theorem ite {c : Prop} [Decidable c] {x y : Run α} (yes : c → Ensures I x Q E)
    (no : ¬c → Ensures I y Q E) : Ensures I (if c then x else y) Q E := by
  split
  next holds => exact yes holds
  next fails => exact no fails

/-- What is read has the property of the state. -/
theorem get : Ensures I MonadState.get I E :=
  fun _ kept => ⟨kept, kept⟩

theorem modifyGet {f : Machine → α × Machine} (step : ∀ m, I m → Q (f m).1 ∧ I (f m).2) :
    Ensures I (MonadState.modifyGet f : Run α) Q E :=
  fun m kept => step m kept

theorem changing {f : Machine → Machine} {Q : PUnit → Prop} (holds : Q ⟨⟩)
    (step : ∀ m, I m → I (f m)) : Ensures I (modify f : Run PUnit) Q E :=
  modifyGet fun m kept => ⟨holds, step m kept⟩

theorem compute {f : Heap → Except Fault α} (values : ∀ m, I m → ∀ a, f m.heap = .ok a → Q a)
    (faults : ∀ m, I m → ∀ fault, f m.heap = .error fault → E (.fault fault)) :
    Ensures I (Run.compute f) Q E := by
  refine get.bind fun m kept => ?_
  cases outcome : f m.heap with
  | ok a => exact pure (values m kept a outcome)
  | error fault => exact fail (faults m kept fault outcome)

/-! ### Lists -/

theorem mapM {f : α → Run β} {R : β → Prop} {xs : List α}
    (each : ∀ a ∈ xs, Ensures I (f a) R E) : Ensures I (xs.mapM f) (fun bs => ∀ b ∈ bs, R b) E := by
  induction xs with
  | nil => exact pure (by simp)
  | cons a xs ih =>
    rw [List.mapM_cons]
    refine (each a (by simp)).bind fun b first => ?_
    refine (ih fun a member => each a (by simp [member])).bind fun bs others => ?_
    exact pure (by simpa using ⟨first, others⟩)

theorem forM {f : α → Run PUnit} {xs : List α}
    (each : ∀ a ∈ xs, Ensures I (f a) (fun _ => True) E) :
    Ensures I (xs.forM f) (fun _ => True) E := by
  induction xs with
  | nil => exact pure trivial
  | cons a xs ih =>
    refine (each a (by simp)).bind fun _ _ => ?_
    exact ih fun a member => each a (by simp [member])

/-! ### Statements in sequence and in loops -/

variable {S : Signal → Prop}

theorem inOrder {execute : Node → Run Signal} {body : List Node} (normal : S .normal)
    (each : ∀ node ∈ body, Ensures I (execute node) S E) :
    Ensures I (Run.inOrder execute body) S E := by
  induction body with
  | nil => exact pure normal
  | cons node rest ih =>
    refine (each node (by simp)).bind fun signal holds => ?_
    -- any signal but the normal one ends the sequence and is passed on
    cases signal
    case normal => exact ih fun node member => each node (by simp [member])
    all_goals exact pure holds

theorem inBlock {execute : ScopeRef → Node → Run Signal} {scope : ScopeRef} {body : List Node}
    {O : ScopeRef → Prop} (normal : S .normal) (opened : Ensures I (openScope scope) O E)
    (each : ∀ inner, O inner → ∀ node ∈ body, Ensures I (execute inner node) S E) :
    Ensures I (Run.inBlock execute scope body) S E :=
  opened.bind fun inner isNew => inOrder normal (each inner isNew)

theorem rounds {R : α → Prop} {round : Run (Option α)} (patience : Nat)
    (unfinished : E .unfinished) (each : Ensures I round (fun result => ∀ a ∈ result, R a) E) :
    Ensures I (Run.rounds round patience) R E := by
  induction patience with
  | zero => exact throw unfinished
  | succ patience ih =>
    refine each.bind fun result holds => ?_
    cases result with
    | some a => exact pure (holds a rfl)
    | none => exact ih

/-- A loop takes up all jumps: after it, a return is under way or the program goes on. -/
theorem loop {settings : Settings} {test : Run Bool} {body : Run Signal} {update : Run Unit}
    (unfinished : E .unfinished) (tests : Ensures I test (fun _ => True) E)
    (bodies : Ensures I body (fun _ => True) E) (updates : Ensures I update (fun _ => True) E) :
    Ensures I (Run.loop settings test body update)
      (fun signal => signal ≠ .breaking ∧ signal ≠ .continuing) E := by
  refine rounds settings.patience unfinished ?_
  refine tests.bind fun holds _ => ite (fun _ => ?_) fun _ => pure (by simp)
  refine bodies.bind fun signal _ => ?_
  -- a break ends the loop normally; a continue is followed by the update like the end of the body
  cases signal
  case breaking => exact pure (by simp)
  case returning value => exact pure (by simp)
  all_goals exact updates.bind fun _ _ => pure (by simp)

end Ensures

/-! ### Built-in functions -/

/-- A reason to halt that a program is answerable for: it misused a name, a value or a number,
called something with the wrong number of arguments, nested calls too deeply, or printed what the
stream does not take. -/
def Benign : Halt → Prop
  | .fault fault =>
    fault.kind ∈ [.reference, .type, .arity, .range, .encoding] ∨ fault = .stackOverflow
  | .unfinished => True

theorem ensures_number (value : Value) : Ensures I (number value) (fun _ => True) Benign := by
  refine .compute (fun _ _ _ _ => trivial) fun m _ fault failed => ?_
  rw [Value.onlyRange_toNumber fault failed]
  exact .inl (by simp [Fault.kind])

theorem ensures_readName (scope : ScopeRef) (name : Text) :
    Ensures I (readName scope name) (fun _ => True) Benign := by
  refine Ensures.get.bind fun m _ => ?_
  split
  · exact .pure trivial
  · exact .fail (.inl (by simp [Fault.kind]))

theorem get_bind {f : Machine → Run α} (m : Machine) : (get >>= f) m = f m m := rfl

/-- An assignment changes a binding that is there already. -/
theorem ensures_assignName (scope : ScopeRef) (name : Text) (value : Value)
    (step : ∀ m owner, I m → (m.scopes.own? name owner).isSome →
      I { m with scopes := m.scopes.declare name value owner }) :
    Ensures I (assignName scope name value) (fun _ => True) Benign := by
  intro m kept
  -- the owner is found in the state itself, so the rule for sequences would lose what it says
  cases resolved : m.scopes.resolve? name scope with
  | some owner =>
    have outcome : assignName scope name value m =
        .ok value { m with scopes := m.scopes.declare name value owner } := by
      rw [assignName, get_bind, resolved]
      rfl
    rw [outcome]
    exact ⟨trivial, step m owner kept (by simpa using List.find?_some resolved)⟩
  | none =>
    have outcome : assignName scope name value m = .error (.fault (.undeclaredTarget name)) m := by
      rw [assignName, get_bind, resolved]
      rfl
    rw [outcome]
    exact ⟨.inl (by simp [Fault.kind]), kept⟩

/-- The property depends on the scopes and the user functions alone. -/
def Stable (I : Machine → Prop) : Prop :=
  ∀ m m' : Machine, m'.scopes = m.scopes → m'.heap.closures = m.heap.closures → I m → I m'

section

variable (stable : Stable I)
include stable

theorem ensures_write (settings : Settings) (text : Text) :
    Ensures I (write settings text) (fun _ => True) Benign := by
  unfold write
  split
  · exact .fail (.inl (by simp [Fault.kind]))
  · exact .changing trivial fun m kept => stable m _ rfl rfl kept

theorem ensures_note (settings : Settings) (level : Nat) (message : Heap → Text) :
    Ensures I (note settings level message) (fun _ => True) E := by
  refine .ite (fun _ => ?_) fun _ => .pure trivial
  exact .changing trivial fun m kept => stable m _ rfl rfl kept

theorem ensures_newArray (items : Array Value) : Ensures I (newArray items) (fun _ => True) E :=
  .modifyGet fun m kept => ⟨trivial, stable m _ rfl rfl kept⟩

theorem ensures_changeItems (ref : ArrayRef) (f : Array Value → Array Value) :
    Ensures I (changeItems ref f) (fun _ => True) E :=
  .changing trivial fun m kept => stable m _ rfl rfl kept

theorem ensures_newMethod (name : ArrayMethod) (receiver : ArrayRef) :
    Ensures I (newMethod name receiver) (fun _ => True) E :=
  .modifyGet fun m kept => ⟨trivial, stable m _ rfl rfl kept⟩

theorem ensures_drawNumber : Ensures I drawNumber (fun _ => True) E :=
  .modifyGet fun m kept => ⟨trivial, stable m _ rfl rfl kept⟩

theorem ensures_readMember (target key : Value) :
    Ensures I (readMember target key) (fun _ => True) Benign := by
  refine Ensures.get.bind fun m _ => ?_
  dsimp only
  split
  · exact .fail (.inl (by simp [Fault.kind]))
  · exact .pure trivial
  · exact .pure trivial
  · refine .ite (fun _ => .pure trivial) fun _ => ?_
    split
    · exact ensures_newMethod stable _ _
    · exact .pure trivial
  all_goals exact .pure trivial

theorem ensures_callBuiltin (settings : Settings) (function : Builtin) (args : List Value) :
    Ensures I (callBuiltin settings function args) (fun _ => True) Benign := by
  unfold callBuiltin
  -- printing, drawing a random number, and arithmetic on numbers
  split
  · refine Ensures.get.bind fun m _ => ?_
    exact (ensures_write stable settings _).bind fun _ _ => .pure trivial
  · exact (ensures_drawNumber stable).bind fun _ _ => .pure trivial
  · exact (Ensures.mapM fun value _ => ensures_number value).bind fun _ _ => .pure trivial

theorem ensures_callMethod (method : ArrayMethod) (ref : ArrayRef) (args : List Value) :
    Ensures I (callMethod method ref args) (fun _ => True) Benign := by
  unfold callMethod
  split
  · refine (ensures_changeItems stable _ _).bind fun _ _ => ?_
    exact Ensures.get.bind fun _ _ => .pure trivial
  · refine Ensures.get.bind fun m _ => ?_
    split
    · exact (ensures_changeItems stable _ _).bind fun _ _ => .pure trivial
    · exact .pure trivial
  · exact Ensures.get.bind fun _ _ => .pure trivial
  · exact Ensures.get.bind fun _ _ => .pure trivial

theorem ensures_callNative (settings : Settings) (name : String) (arity? : Option Nat)
    (args : List Value) {body : Run Value} (bodies : Ensures I body (fun _ => True) Benign) :
    Ensures I (callNative settings name arity? args body) (fun _ => True) Benign := by
  have noted := (ensures_note stable settings 3 fun _ => "call native " ++ name).bind
    fun _ _ => bodies
  unfold callNative
  split
  · refine .ite (fun _ => ?_) fun _ => noted
    exact Ensures.bind (Q := fun _ => True) (.fail (.inl (by simp [Fault.kind]))) fun _ _ => noted
  · exact noted

end

end Run

end YapLang
