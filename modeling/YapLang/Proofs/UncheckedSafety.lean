import YapLang.Proofs.PairedRuns
import YapLang.Proofs.RunLetters
import YapLang.Proofs.TokenValues
import YapLang.Proofs.UncheckedLooks

/-!
# What was read runs without a crash

A document that can be read as a program is run, unchecked, exactly as the program that it is read
as, and so it does not crash, but for a text that the stream refuses. Each look into the document
succeeds, also into functions that are called long after they were declared: what was stored of them
is the document of their declaration, and the machine itself knows neither parameters nor bodies,
which no other operation asks for. The rest is that the checks of arguments and of indices come
before the steps that rely on them.
-/
namespace YapLang

/-! ### Machines that know no parameters and no bodies -/

def Closure.bare (closure : Closure) : Closure :=
  { closure with params := [], body := [] }

def Machine.bare (m : Machine) : Machine :=
  { m with heap := { m.heap with closures := m.heap.closures.map Closure.bare } }

theorem Machine.alike_bare (m : Machine) : m.bare.heap.Alike m.heap where
  arrays := rfl
  names ref := by
    simp only [Machine.bare, Heap.closureName, Array.getElem?_map, Option.map_map]
    rfl

/-- The first machine is the second one without parameters and bodies. The second one has the given
functions. -/
def Machine.BareOf (closures : Array Closure) (b m : Machine) : Prop :=
  b = m.bare ∧ m.heap.closures = closures

namespace Run

variable {α β : Type}

/-- The run adds no function, and it does not matter to it what parameters and bodies there are. -/
def Blind (x : Run α) : Prop :=
  ∀ closures, Paired (Machine.BareOf closures) x x

theorem blind_modify {f : Machine → Machine} (indifferent : ∀ m, f m.bare = (f m).bare)
    (kept : ∀ m, (f m).heap.closures = m.heap.closures) : Blind (modify f : Run PUnit) := by
  intro closures
  apply Paired.changing
  rintro _ m ⟨rfl, same⟩
  exact ⟨indifferent m, (kept m).trans same⟩

theorem blind_modifyGet {f : Machine → α × Machine}
    (indifferent : ∀ m, f m.bare = ((f m).1, (f m).2.bare))
    (kept : ∀ m, (f m).2.heap.closures = m.heap.closures) :
    Blind (MonadState.modifyGet f : Run α) := by
  intro closures
  apply Paired.modifyGet
  rintro _ m ⟨rfl, same⟩
  rw [indifferent m]
  exact ⟨rfl, rfl, (kept m).trans same⟩

theorem blind_changeItems (ref : ArrayRef) (f : Array Value → Array Value) :
    Blind (changeItems ref f) :=
  blind_modify (fun _ => rfl) (fun _ => rfl)

theorem blind_write (settings : Settings) (text : Text) : Blind (write settings text) := by
  unfold write
  split
  · exact fun closures => .fail _
  · exact blind_modify (fun _ => rfl) (fun _ => rfl)

theorem blind_drawNumber : Blind drawNumber :=
  blind_modifyGet (fun _ => rfl) (fun _ => rfl)

theorem blind_declareName (scope : ScopeRef) (name : Text) (value : Value) :
    Blind (declareName scope name value) :=
  blind_modify (fun _ => rfl) (fun _ => rfl)

theorem blind_openScope (parent : ScopeRef) : Blind (openScope parent) :=
  blind_modifyGet (fun _ => rfl) (fun _ => rfl)

theorem blind_newArray (items : Array Value) : Blind (newArray items) :=
  blind_modifyGet (fun _ => rfl) (fun _ => rfl)

theorem blind_assignName (scope : ScopeRef) (name : Text) (value : Value) :
    Blind (assignName scope name value) := by
  intro closures
  apply Paired.get
  rintro _ m ⟨rfl, -⟩
  have scopes : m.bare.scopes = m.scopes := rfl
  rw [scopes]
  cases m.scopes.resolve? name scope with
  | none => exact .fail _
  | some owner => exact (blind_declareName owner name value closures).bind fun _ => .pure value

theorem blind_note (settings : Settings) (level : Nat) (message : Heap → Text)
    (indifferent : ∀ {heap other : Heap}, heap.Alike other → message heap = message other) :
    Blind (note settings level message) := by
  unfold note
  split
  · apply blind_modify
    · intro m
      rw [indifferent m.alike_bare]
      rfl
    · intro m
      rfl
  · exact fun closures => .pure _

theorem seenAlike_bareOf (closures : Array Closure) : SeenAlike (Machine.BareOf closures) where
  heap := by
    rintro _ m ⟨rfl, -⟩
    exact m.alike_bare
  changeItems ref f := blind_changeItems ref f closures
  newMethod _ _ := blind_modifyGet (fun _ => rfl) (fun _ => rfl) closures
  drawNumber := blind_drawNumber closures

theorem blind_compute {f : Heap → Except Fault α}
    (indifferent : ∀ {heap other : Heap}, heap.Alike other → f heap = f other) :
    Blind (compute f) :=
  fun closures => (seenAlike_bareOf closures).compute indifferent

theorem blind_forM_declareName (scope : ScopeRef) (bindings : List (Text × Value)) :
    Blind (bindings.forM fun binding => declareName scope binding.1 binding.2) :=
  fun closures => .forM fun binding _ => blind_declareName scope binding.1 binding.2 closures

theorem itemAt_map (f : α → β) (get? : Nat → Option α) (index : Float) :
    itemAt (fun i => (get? i).map f) index = (itemAt get? index).map f := by
  unfold itemAt
  split <;> rfl

theorem blind_finishCall (name : Text) (signal : Signal) : Blind (finishCall name signal) := by
  intro closures
  cases signal with
  | normal | returning => exact .pure _
  | breaking | continuing => exact .fail _

end Run

namespace Unchecked

open Loaded (ofDocument fieldsOf)
open YapLang.Run (Blind Paired SameEnd)

/-! ### Numbers -/

/-- What has the form of a number is read as one. -/
theorem numeral_eq (text : Text) : numeral text = .ok () := by
  unfold numeral
  split
  next s =>
    dsimp only
    cases counts : Text.signedNumber? (Text.trimBlanks s.toList) with
    | none => rfl
    | some x => rw [Text.tokenNumber?_of_signedNumber? counts]
  · rfl

theorem convert_eq (value : Value) : convert value = pure () := by
  funext s
  show look (numeral (value.toText s.machine.heap)) s = _
  rw [numeral_eq]
  rfl

theorem forM_convert (values : List Value) : values.forM convert = pure () := by
  induction values with
  | nil => rfl
  | cons value values ih => rw [List.forM, convert_eq, pure_bind, ih]

/-! ### Runs that follow each other -/

/-- What was stored of a function is read as what the machine has of it. -/
structure Declares (function : Function) (closure : Closure) : Prop where
  params : ofDocument function.params = .ok (.list (closure.params.map .text))
  body : Reads function.body (.block closure.body)

/-- The unchecked run is where the run is: on the machine without parameters and bodies, which stand
in the documents that were stored. -/
structure Tracks (s : State) (m : Machine) : Prop where
  machine : s.machine = m.bare
  count : s.functions.size = m.heap.closures.size
  each : ∀ {index : Nat} {function : Function} {closure : Closure},
    s.functions[index]? = some function → m.heap.closures[index]? = some closure →
      Declares function closure

theorem Tracks.items {s : State} {m : Machine} (tracks : Tracks s m) (ref : ArrayRef) :
    s.machine.heap.items ref = m.heap.items ref := by
  rw [tracks.machine]
  exact m.alike_bare.items ref

/-- A function that the machine knows was stored. -/
theorem Tracks.stored {s : State} {m : Machine} (tracks : Tracks s m) (index : Nat) :
    s.machine.heap.closures[index]? = none ∧ m.heap.closures[index]? = none ∨
      ∃ function closure, s.machine.heap.closures[index]? = some (Closure.bare closure) ∧
        s.functions[index]? = some function ∧ m.heap.closures[index]? = some closure ∧
        Declares function closure := by
  have known : s.machine.heap.closures[index]? = m.heap.closures[index]?.map Closure.bare := by
    rw [tracks.machine]
    exact Array.getElem?_map
  cases found : m.heap.closures[index]? with
  | none =>
    rw [found] at known
    exact .inl ⟨known, rfl⟩
  | some closure =>
    obtain ⟨inRange, -⟩ := Array.getElem?_eq_some_iff.1 found
    rw [← tracks.count] at inRange
    have stored := Array.getElem?_eq_getElem inRange
    rw [found] at known
    exact .inr ⟨_, closure, known, stored, rfl, tracks.each stored found⟩

variable {α β : Type}

/-- Both ended with the same value, or one stopped where the other halted. -/
inductive Ends : EStateM.Result Stop State α → EStateM.Result Halt Machine α → Prop where
  | value {a s m} : Tracks s m → Ends (.ok a s) (.ok a m)
  | halt {cause s m} : Tracks s m → Ends (.error (.ofHalt cause) s) (.error cause m)

theorem Ends.exists_of_halt {cause : Halt} {m : Machine} {result : EStateM.Result Stop State α}
    (ends : Ends result (.error cause m)) : ∃ s, result = .error (.ofHalt cause) s := by
  cases ends
  exact ⟨_, rfl⟩

/-- A crash is the halt of a run that had a text refused. -/
theorem Ends.exists_of_crash {cause : Crash} {s : State} {result : EStateM.Result Halt Machine α}
    (ends : Ends (.error (.crash cause) s) result) :
    ∃ refusal m, result = .error (.fault (.unencodable refusal)) m ∧
      cause = .unencodable refusal := by
  -- each halt stops the run in one way, and only one of them is a crash
  generalize stopped : Stop.crash cause = stop at ends
  cases ends with
  | @halt halt _ m _ =>
    unfold Stop.ofHalt at stopped
    split at stopped
    · cases stopped
      exact ⟨_, m, rfl, rfl⟩
    · cases stopped

theorem Ends.kind_ne_encoding {fault : Fault} {s : State}
    {result : EStateM.Result Halt Machine α}
    (ends : Ends (.error (.halt (.fault fault)) s) result) : fault.kind ≠ .encoding := by
  generalize stopped : Stop.halt (.fault fault) = stop at ends
  cases ends with
  | halt =>
    unfold Stop.ofHalt at stopped
    split at stopped
    · cases stopped
    next other =>
      cases stopped
      intro isEncoding
      cases fault <;> cases isEncoding
      exact other _ rfl

/-- From states that track each other, the unchecked run ends as the run does. -/
def Follows (x : Unchecked α) (y : Run α) : Prop :=
  ∀ s m, Tracks s m → Ends (x s) (y m)

namespace Follows

theorem pure (a : α) : Follows (Pure.pure a) (Pure.pure a) :=
  fun _ _ tracks => .value tracks

theorem fail (fault : Fault) : Follows (Unchecked.fail fault : Unchecked α) (Run.fail fault) :=
  fun _ _ tracks => .halt tracks

theorem bind {x : Unchecked α} {y : Run α} {f : α → Unchecked β} {g : α → Run β}
    (first : Follows x y) (next : ∀ a, Follows (f a) (g a)) : Follows (x >>= f) (y >>= g) := by
  intro s m tracks
  show Ends (EStateM.bind x f s) (EStateM.bind y g m)
  unfold EStateM.bind
  have ends := first s m tracks
  generalize x s = left, y m = right at ends ⊢
  cases ends with
  | value still => exact next _ _ _ still
  | halt still => exact .halt still

/-- A step of the machine that parameters and bodies do not matter to. -/
theorem lift {x : Run α} (blind : Blind x) : Follows (Unchecked.lift x) x := by
  intro s m tracks
  -- the step does the same on both machines, and adds no function
  have ends := blind m.heap.closures s.machine m ⟨tracks.machine, rfl⟩
  unfold Unchecked.lift
  generalize x s.machine = left, x m = right at ends ⊢
  have still {b n : Machine} (related : Machine.BareOf m.heap.closures b n) :
      Tracks { s with machine := b } n := by
    obtain ⟨isBare, same⟩ := related
    constructor
    · exact isBare
    · rw [same]
      exact tracks.count
    · intro index function closure stored found
      rw [same] at found
      exact tracks.each stored found
  cases ends with
  | value related => exact .value (still related)
  | halt related => exact .halt (still related)

/-- What the machine is asked for is the same without parameters and bodies. -/
theorem get {f : State → Unchecked α} {g : Machine → Run α}
    (next : ∀ s m, Tracks s m → Follows (f s) (g m)) : Follows (get >>= f) (get >>= g) :=
  fun s m tracks => next s m tracks s m tracks

theorem mapM {f : Document → Unchecked α} {g : Node → Run α} {ds : List Document}
    {trees : List Node} (reads : List.Forall₂ Reads ds trees)
    (each : ∀ {d tree}, Reads d tree → Follows (f d) (g tree)) :
    Follows (ds.mapM f) (trees.mapM g) := by
  induction reads with
  | nil => exact pure []
  | cons first _ ih =>
    rw [List.mapM_cons, List.mapM_cons]
    apply (each first).bind
    intro a
    exact ih.bind fun rest => pure (a :: rest)

theorem inOrder {execute : Document → Unchecked Signal} {other : Node → Run Signal}
    {ds : List Document} {trees : List Node} (reads : List.Forall₂ Reads ds trees)
    (each : ∀ {d tree}, Reads d tree → Follows (execute d) (other tree)) :
    Follows (Unchecked.inOrder execute ds) (Run.inOrder other trees) := by
  induction reads with
  | nil => exact pure Signal.normal
  | cons first _ ih =>
    apply (each first).bind
    intro signal
    cases signal with
    | normal => exact ih
    | breaking | continuing | returning => exact pure _

theorem rounds {round : Unchecked (Option α)} {other : Run (Option α)} (patience : Nat)
    (each : Follows round other) :
    Follows (Unchecked.rounds round patience) (Run.rounds other patience) := by
  induction patience with
  | zero => exact fun _ _ tracks => .halt tracks
  | succ patience ih =>
    apply each.bind
    intro result
    cases result with
    | some a => exact pure a
    | none => exact ih

theorem loop (settings : Settings) {test : Unchecked Bool} {test' : Run Bool}
    {body : Unchecked Signal} {body' : Run Signal} {update : Unchecked Unit} {update' : Run Unit}
    (tests : Follows test test') (bodies : Follows body body') (updates : Follows update update') :
    Follows (Unchecked.loop settings test body update) (Run.loop settings test' body' update') := by
  apply rounds
  apply tests.bind
  intro goesOn
  split
  · apply bodies.bind
    intro signal
    cases signal with
    | breaking | returning => exact pure _
    | normal | continuing => exact updates.bind fun _ => pure none
  · exact pure _

theorem inBlock {execute : ScopeRef → Document → Unchecked Signal}
    {other : ScopeRef → Node → Run Signal} (scope : ScopeRef) {ds : List Document}
    {trees : List Node} (reads : List.Forall₂ Reads ds trees)
    (each : ∀ inner {d tree}, Reads d tree → Follows (execute inner d) (other inner tree)) :
    Follows (Unchecked.inBlock execute scope ds) (Run.inBlock other scope trees) :=
  (lift (Run.blind_openScope scope)).bind fun inner => inOrder reads (each inner)

/-! ### Checks before steps -/

/-- The nearest scope that binds a name binds it. -/
theorem readName (scope : ScopeRef) (name : Text) :
    Follows (Unchecked.readName scope name) (Run.readName scope name) := by
  apply get
  intro s m tracks
  have scopes : s.machine.scopes = m.scopes := by
    rw [tracks.machine]
    rfl
  rw [scopes, Scopes.get?]
  dsimp only
  cases found : m.scopes.resolve? name scope with
  | none => exact fail _
  | some owner =>
    -- the owner was picked because it binds the name
    have bound := List.find?_some found
    obtain ⟨value, isValue⟩ := Option.isSome_iff_exists.1 bound
    simp only [Option.bind_some, isValue]
    exact pure value

/-- An index in bounds has an item. -/
theorem itemAt (items : List Value) (index : Float) :
    Follows (Unchecked.itemAt items index)
      (Pure.pure ((Run.itemAt (items[·]?) index).getD .undefined)) := by
  unfold Unchecked.itemAt Run.itemAt
  cases Double.toInt? index with
  | none => exact pure _
  | some whole =>
    cases whole with
    | negSucc => exact pure _
    | ofNat i =>
      dsimp only
      split
      next inBounds =>
        rw [List.getElem?_eq_getElem inBounds]
        exact pure _
      next beyond =>
        rw [List.getElem?_eq_none (Nat.le_of_not_lt beyond)]
        exact pure _

theorem readMember (target key : Value) :
    Follows (Unchecked.readMember target key) (Run.readMember target key) := by
  intro s m tracks
  have lifted : Ends (Unchecked.lift (Run.readMember target key) s) (Run.readMember target key m) :=
    lift (fun closures => (Run.seenAlike_bareOf closures).readMember target key) s m tracks
  cases key with
  | number index =>
    cases target with
    | array ref =>
      have items := itemAt (m.heap.items ref).toList index s m tracks
      simp only [Array.getElem?_toList] at items
      show Ends (Unchecked.itemAt (s.machine.heap.items ref).toList index s) _
      rw [tracks.items ref]
      exact items
    | text t =>
      have items :=
        itemAt (t.letters.map fun letter => .text (.ofLetters [letter])) index s m tracks
      simp only [List.getElem?_map, Run.itemAt_map] at items
      exact items
    | _ => exact lifted
  | _ => cases target <;> exact lifted

/-- A function that has as many arguments as it takes. -/
theorem callBuiltin (settings : Settings) {function : Builtin} {args : List Value}
    (checked : ∀ n, function.arity? = some n → args.length = n) :
    Follows (Unchecked.callBuiltin settings function args)
      (Run.callBuiltin settings function args) := by
  have fits : function.arity?.all (· = args.length) := by
    cases arity : function.arity? with
    | none => rfl
    | some n => simp [checked n arity]
  have written (closures : Array Closure) (text : Text) := Run.blind_write settings text closures
  have lifted := lift fun closures =>
    (Run.seenAlike_bareOf closures).callBuiltin (written closures) function args
  -- the number of arguments has been checked, and the numbers among them can be read
  rw [Unchecked.callBuiltin, if_pos fits]
  cases function with
  | print => exact lifted
  | math f =>
    simp only [forM_convert, pure_bind]
    exact lifted

/-- An array that is not empty has a last item. -/
theorem popItem (ref : ArrayRef) : Follows (Unchecked.popItem ref) (Run.popItem ref) := by
  apply get
  intro s m tracks
  rw [tracks.items ref]
  dsimp only
  cases found : (m.heap.items ref).back? with
  | none =>
    have isEmpty : (m.heap.items ref).isEmpty := by simpa using found
    rw [if_pos isEmpty]
    exact pure _
  | some last =>
    -- the check whether there is a last item and the item agree
    have notEmpty : ¬ (m.heap.items ref).isEmpty := by
      intro isEmpty
      simp_all
    rw [if_neg notEmpty]
    exact (lift (Run.blind_changeItems ref _)).bind fun _ => pure last

theorem callMethod {method : ArrayMethod} {args : List Value} (ref : ArrayRef)
    (checked : ∀ n, method.arity? = some n → args.length = n) :
    Follows (Unchecked.callMethod method ref args) (Run.callMethod method ref args) := by
  have lifted : Follows (Unchecked.lift (Run.callMethod method ref args))
      (Run.callMethod method ref args) :=
    lift fun closures => (Run.seenAlike_bareOf closures).callMethod method ref args
  cases method with
  | push | join => exact lifted
  | pop => exact popItem ref
  | indexOf =>
    -- one argument was asked for, so there is one to look for
    have one := checked 1 rfl
    cases args with
    | nil => cases one
    | cons wanted rest => exact lifted

theorem callNative (settings : Settings) (name : String) {arity? : Option Nat} {args : List Value}
    {body : Unchecked Value} {other : Run Value}
    (bodies : (∀ n, arity? = some n → args.length = n) → Follows body other) :
    Follows (Unchecked.callNative settings name arity? args body)
      (Run.callNative settings name arity? args other) := by
  have noted := lift (Run.blind_note settings 3 (fun _ => "call native " ++ name) fun _ => rfl)
  unfold Unchecked.callNative Run.callNative
  cases arity? with
  | none => exact noted.bind fun _ => bodies (by simp)
  | some expected =>
    dsimp only
    split
    · exact fun _ _ tracks => .halt tracks
    next fits => exact noted.bind fun _ => bodies (by simpa using fits)

theorem newFunction {name : Text} {params : List Text} {body : List Node} {function : Function}
    (scope : ScopeRef) (declares : Declares function ⟨name, params, body, scope⟩) :
    Follows (Unchecked.newFunction name function scope)
      (Run.newClosure ⟨name, params, body, scope⟩) := by
  intro s m tracks
  have count : s.machine.heap.closures.size = m.heap.closures.size := by
    rw [tracks.machine]
    exact Array.size_map
  show Ends (.ok (Value.closure ⟨s.machine.heap.closures.size⟩) _) (.ok _ _)
  rw [count]
  apply Ends.value
  constructor
  · rw [tracks.machine]
    simp [Machine.bare, Closure.bare]
  · simp [tracks.count]
  · intro index stored closure found isClosure
    -- what was stored and what the machine has grew by one at the same index
    simp only [Array.getElem?_push] at found isClosure
    rw [tracks.count] at found
    split at found
    next isNew =>
      rw [if_pos isNew] at isClosure
      cases found
      cases isClosure
      exact declares
    next isOld =>
      rw [if_neg isOld] at isClosure
      exact tracks.each found isClosure

end Follows

/-! ### Evaluation -/

theorem look_bind (a : α) (f : α → Unchecked β) : look (.ok a) >>= f = f a := rfl

/-- A document is evaluated or executed unchecked as the tree that it is read as, as far as
evaluation goes, and values are called alike. -/
structure Mirrors (settings : Settings) (depth : Nat) : Prop where
  evaluate : ∀ scope {d tree}, Reads d tree →
    Follows (Unchecked.evaluate settings depth scope d) (Run.evaluate settings depth scope tree)
  execute : ∀ scope {d tree}, Reads d tree →
    Follows (Unchecked.execute settings depth scope d) (Run.execute settings depth scope tree)
  call : ∀ function args description,
    Follows (Unchecked.call settings depth function args description)
      (Run.call settings depth function args description)

section

variable {settings : Settings} {depth : Nat} (inner : Mirrors settings depth)
include inner

theorem evaluate_follows (scope : ScopeRef) {d : Document} {tree : Node} (reads : Reads d tree) :
    Follows (evaluate settings (depth + 1) scope d)
      (Run.evaluate settings (depth + 1) scope tree) := by
  have form := reads.form
  cases tree <;> simp only [evaluate, Run.evaluate, form, Tree.form]
  case number value =>
    obtain ⟨part, found, read⟩ := reads.fieldAt "value" rfl
    simp only [found, ok_bind, number_eq read, look_bind]
    exact (Follows.lift (Run.blind_compute fun _ => rfl)).bind fun x => .pure _
  case text value =>
    simp only [reads.textAt "value" rfl, look_bind]
    exact .pure _
  case identifier name =>
    simp only [reads.textAt "name" rfl, look_bind]
    exact .readName scope name
  case binary op left right =>
    obtain ⟨leftPart, leftAt, leftRead⟩ := reads.fieldAt "left" rfl
    obtain ⟨rightPart, rightAt, rightRead⟩ := reads.fieldAt "right" rfl
    simp only [leftAt, rightAt, reads.textAt "op" rfl, look_bind, convert_eq, pure_bind]
    apply (inner.evaluate scope leftRead).bind
    intro a
    apply (inner.evaluate scope rightRead).bind
    intro b
    exact .lift (Run.blind_compute fun alike => Value.binary_alike alike op a b)
  case logical op left right =>
    obtain ⟨leftPart, leftAt, leftRead⟩ := reads.fieldAt "left" rfl
    obtain ⟨rightPart, rightAt, rightRead⟩ := reads.fieldAt "right" rfl
    simp only [leftAt, rightAt, reads.textAt "op" rfl, look_bind]
    apply (inner.evaluate scope leftRead).bind
    intro a
    -- each side matches the operator by itself, so the cases are split before looking at either
    by_cases isAnd : op = "&&"
    · subst isAnd
      simp only
      split
      · exact inner.evaluate scope rightRead
      · exact .pure a
    by_cases isOr : op = "||"
    · subst isOr
      simp only
      split
      · exact .pure a
      · exact inner.evaluate scope rightRead
    · simp only
      exact .fail _
  case unary op operand =>
    obtain ⟨operandPart, operandAt, operandRead⟩ := reads.fieldAt "operand" rfl
    simp only [operandAt, reads.textAt "op" rfl, look_bind, convert_eq, pure_bind]
    apply (inner.evaluate scope operandRead).bind
    intro a
    exact .lift (Run.blind_compute fun alike => Value.unary_alike alike op a)
  case assignment target value =>
    obtain ⟨valuePart, valueAt, valueRead⟩ := reads.fieldAt "value" rfl
    simp only [valueAt, reads.nameAt "target" rfl, look_bind]
    apply (inner.evaluate scope valueRead).bind
    intro a
    exact .lift (Run.blind_assignName scope target a)
  case update op target =>
    simp only [reads.nameAt "target" rfl, reads.textAt "op" rfl, look_bind, convert_eq, pure_bind]
    apply (Follows.readName scope target).bind
    intro old
    apply (Follows.lift (Run.blind_compute fun alike => old.toNumber_alike alike)).bind
    intro x
    apply (Follows.lift (Run.blind_compute fun _ => rfl)).bind
    intro y
    exact .lift (Run.blind_assignName scope target _)
  case call callee args =>
    obtain ⟨calleePart, calleeAt, calleeRead⟩ := reads.fieldAt "callee" rfl
    obtain ⟨parts, argsAt, argsRead⟩ := reads.itemsAt "args" rfl
    simp only [calleeAt, argsAt, Reads.describe calleeRead, look_bind]
    apply (inner.evaluate scope calleeRead).bind
    intro function
    apply (Follows.mapM argsRead (inner.evaluate scope)).bind
    intro values
    exact inner.call function values _
  case property object name =>
    obtain ⟨objectPart, objectAt, objectRead⟩ := reads.fieldAt "object" rfl
    obtain ⟨flag, computedAt, flagRead⟩ := reads.fieldAt "computed" rfl
    simp only [objectAt, computedAt, ok_bind, truth_eq flagRead, reads.nameAt "property" rfl,
      look_bind]
    apply (inner.evaluate scope objectRead).bind
    intro target
    exact .readMember target _
  case index object key =>
    obtain ⟨objectPart, objectAt, objectRead⟩ := reads.fieldAt "object" rfl
    obtain ⟨keyPart, keyAt, keyRead⟩ := reads.fieldAt "property" rfl
    obtain ⟨flag, computedAt, flagRead⟩ := reads.fieldAt "computed" rfl
    simp only [objectAt, keyAt, computedAt, ok_bind, truth_eq flagRead, look_bind]
    apply (inner.evaluate scope objectRead).bind
    intro target
    apply (inner.evaluate scope keyRead).bind
    intro key
    exact .readMember target key
  case array elements =>
    obtain ⟨parts, elementsAt, elementsRead⟩ := reads.itemsAt "elements" rfl
    simp only [elementsAt, look_bind]
    apply (Follows.mapM elementsRead (inner.evaluate scope)).bind
    intro items
    exact .lift (Run.blind_newArray _)
  all_goals exact .fail _

/-- An expression that may be left out, followed by something that always gives a value. -/
theorem optional_follows (scope : ScopeRef) {d : Option Document} {expr : Option Node}
    (f : Value → α) (x : α) : Option.Rel Reads d expr →
    Follows
      (match d with
        | some d => return f (← evaluate settings depth scope d)
        | none => return x)
      (match expr with
        | some expr => return f (← Run.evaluate settings depth scope expr)
        | none => return x) := by
  intro reads
  cases reads with
  | none => exact .pure x
  | some read => exact (inner.evaluate scope read).bind fun value => .pure (f value)

theorem loop_follows (scope : ScopeRef) {test : Unchecked Bool} {test' : Run Bool}
    {update : Unchecked Unit} {update' : Run Unit} {parts : List Document} {body : List Node}
    (tests : Follows test test') (reads : List.Forall₂ Reads parts body)
    (updates : Follows update update') :
    Follows (loop settings test (inBlock (execute settings depth) scope parts) update)
      (Run.loop settings test' (Run.inBlock (Run.execute settings depth) scope body) update') :=
  .loop settings tests (.inBlock scope reads inner.execute) updates

theorem execute_follows (scope : ScopeRef) {d : Document} {tree : Node} (reads : Reads d tree) :
    Follows (execute settings (depth + 1) scope d)
      (Run.execute settings (depth + 1) scope tree) := by
  have form := reads.form
  cases tree <;> simp only [execute, Run.execute, form, Tree.form]
  case statement expr =>
    obtain ⟨part, found, read⟩ := reads.fieldAt "expr" rfl
    simp only [found, look_bind]
    exact (inner.evaluate scope read).bind fun _ => .pure _
  case declaration name init =>
    obtain ⟨part, found, partRead⟩ := reads.fieldAt "init" rfl
    simp only [found, reads.textAt "name" rfl, look_bind]
    have initReads := optional_rel partRead
    -- whether there is an expression is asked of the document and of the tree
    generalize optional part = start at initReads ⊢
    have declared (value : Value) :=
      (Follows.lift (Run.blind_declareName scope name value)).bind fun _ =>
        (Follows.lift (Run.blind_note settings 2
          (fun heap => "declare " ++ name ++ " = " ++ value.toText heap)
          fun alike => by rw [value.toText_alike alike])).bind fun _ => Follows.pure Signal.normal
    cases initReads with
    | none => exact declared .undefined
    | some read => exact (inner.evaluate scope read).bind declared
  case function name params body =>
    obtain ⟨paramsPart, paramsAt, paramsRead⟩ := reads.fieldAt "params" rfl
    obtain ⟨bodyPart, bodyAt, bodyRead⟩ := reads.fieldAt "body" rfl
    simp only [paramsAt, bodyAt, reads.textAt "name" rfl, texts_eq paramsRead, look_bind]
    have declares : Declares ⟨paramsPart, bodyPart⟩ ⟨name, params, body, scope⟩ :=
      ⟨paramsRead, bodyRead⟩
    apply (Follows.newFunction scope declares).bind
    intro value
    apply (Follows.lift (Run.blind_declareName scope name value)).bind
    intro _
    exact (Follows.lift (Run.blind_note settings 2 _ fun _ => rfl)).bind fun _ => .pure _
  case block body =>
    obtain ⟨parts, found, each⟩ := reads.itemsAt "body" rfl
    simp only [found, look_bind]
    exact .inBlock scope each inner.execute
  case conditional test consequent alternate =>
    obtain ⟨testPart, testAt, testRead⟩ := reads.fieldAt "test" rfl
    obtain ⟨parts, consequentAt, each⟩ := reads.statementsAt "consequent" rfl
    obtain ⟨other, alternateAt, otherRead⟩ := reads.fieldAt "alternate" rfl
    simp only [testAt, consequentAt, alternateAt, look_bind]
    apply (inner.evaluate scope testRead).bind
    intro value
    apply (Follows.lift (Run.blind_note settings 3 _ fun alike => by
      simp only [Value.toText_alike alike])).bind
    intro _
    split
    · exact .inBlock scope each inner.execute
    · have otherReads := optional_rel otherRead
      generalize optional other = elsePart at otherReads ⊢
      cases otherReads with
      | none => exact .pure _
      | some read => exact inner.execute scope read
  case whileLoop test body =>
    obtain ⟨testPart, testAt, testRead⟩ := reads.fieldAt "test" rfl
    obtain ⟨parts, bodyAt, each⟩ := reads.statementsAt "body" rfl
    simp only [testAt, bodyAt, look_bind]
    refine loop_follows inner scope ?_ each (.pure _)
    exact (inner.evaluate scope testRead).bind fun value => .pure value.isTruthy
  case forLoop init test update body =>
    obtain ⟨initPart, initAt, initRead⟩ := reads.fieldAt "init" rfl
    obtain ⟨testPart, testAt, testRead⟩ := reads.fieldAt "test" rfl
    obtain ⟨updatePart, updateAt, updateRead⟩ := reads.fieldAt "update" rfl
    obtain ⟨parts, bodyAt, each⟩ := reads.statementsAt "body" rfl
    simp only [initAt, testAt, updateAt, bodyAt, look_bind]
    apply (Follows.lift (Run.blind_openScope scope)).bind
    intro within
    -- the loop itself is the same after all three ways to start
    have rounds := loop_follows inner within
      (optional_follows inner within Value.isTruthy true (optional_rel testRead)) each
      (optional_follows inner within (fun _ => ()) () (optional_rel updateRead))
    have initReads := optional_rel initRead
    generalize optional initPart = start at initReads ⊢
    cases initReads with
    | none => exact rounds
    | @some part tree read =>
      have form := read.form
      cases tree <;> simp only [form, Tree.form]
      case declaration => exact (inner.execute within read).bind fun _ => rounds
      all_goals exact (inner.evaluate within read).bind fun _ => rounds
  case returning argument =>
    obtain ⟨part, found, read⟩ := reads.fieldAt "argument" rfl
    simp only [found, look_bind]
    exact optional_follows inner scope Signal.returning (.returning .undefined) (optional_rel read)
  case breakJump | continueJump => exact .pure _
  all_goals exact .fail _

theorem call_follows (function : Value) (args : List Value) (description : Text) :
    Follows (call settings (depth + 1) function args description)
      (Run.call settings (depth + 1) function args description) := by
  cases function <;> simp only [call, Run.call]
  case builtin function => exact .callNative settings _ fun checked => .callBuiltin settings checked
  case method stamp method receiver =>
    exact .callNative settings _ fun checked => .callMethod receiver checked
  case closure ref =>
    apply Follows.get
    intro s m tracks
    rcases tracks.stored ref.index with
      ⟨known, found⟩ | ⟨function, closure, known, stored, found, declares⟩
    · simp only [known, found]
      exact .fail _
    -- the parameters and the body come from the declaration, its name and scope from the machine
    obtain ⟨parts, bodyAt, each⟩ := declares.body.statements
    simp only [known, stored, found, texts_eq declares.params, bodyAt, look_bind]
    split
    · exact .fail _
    apply (Follows.lift (Run.blind_note settings 3 _ fun alike => by
      rw [Value.argumentsText_alike alike])).bind
    intro _
    apply (Follows.lift (Run.blind_openScope closure.scope)).bind
    intro within
    apply (Follows.lift (Run.blind_forM_declareName within (closure.params.zip args))).bind
    intro _
    apply (Follows.inOrder each (inner.execute within)).bind
    intro signal
    exact .lift (Run.blind_finishCall closure.name signal)
  all_goals exact .fail _

end

/-- By induction on how deep evaluation may go. -/
theorem mirrors (settings : Settings) (depth : Nat) : Mirrors settings depth := by
  induction depth with
  | zero =>
    constructor
    · intro scope d tree _
      rw [evaluate, Run.evaluate]
      exact .fail _
    · intro scope d tree _
      rw [execute, Run.execute]
      exact .fail _
    · intro function args description
      rw [call, Run.call]
      exact .fail _
  | succ depth ih => exact ⟨evaluate_follows ih, execute_follows ih, call_follows ih⟩

theorem program_follows (settings : Settings) (limit : Nat) (scope : ScopeRef) {d : Document}
    {body : List Node} (reads : Reads d (.program body)) :
    Follows (program settings limit scope d) (Run.program settings limit scope body) := by
  obtain ⟨parts, found, each⟩ := reads.itemsAt "body" rfl
  simp only [program, Run.program, found, look_bind, each.length_eq]
  apply (Follows.lift (Run.blind_note settings 1 _ fun _ => rfl)).bind
  intro _
  apply (Follows.inOrder each ((mirrors settings limit).execute scope)).bind
  intro signal
  cases signal with
  | breaking | continuing => exact .fail _
  | normal | returning =>
    exact (Follows.lift (Run.blind_note settings 1 _ fun _ => rfl)).bind fun _ => .pure _

/-- On a new machine there are no functions yet. -/
theorem tracks_start (bindings : Bindings) (draws : Nat → Float) :
    Tracks ⟨Machine.start bindings draws, #[]⟩ (Machine.start bindings draws) where
  machine := by simp [Machine.bare, Machine.start, Heap.empty]
  count := rfl
  each stored := by simp at stored

/-- A function prints what it is given, and returns a jump, which is no expression. -/
def halfPrinted : Document :=
  .object [("type", .text "Program"), ("body", .list [
    .object [("type", .text "FunctionDeclaration"), ("name", .text "f"),
      ("params", .list [.text "x"]),
      ("body", .object [("type", .text "Block"), ("body", .list [
        .object [("type", .text "ExpressionStatement"),
          ("expr", .object [("type", .text "Call"),
            ("callee", .object [("type", .text "Identifier"), ("name", .text "print")]),
            ("args", .list [.object [("type", .text "Identifier"), ("name", .text "x")]])])],
        .object [("type", .text "Return"), ("argument", .object [("type", .text "Break")])]])])],
    .object [("type", .text "ExpressionStatement"),
      ("expr", .object [("type", .text "Call"),
        ("callee", .object [("type", .text "Identifier"), ("name", .text "f")]),
        ("args", .list [.object [("type", .text "StringLiteral"),
          ("value", .text ⟨"", [(⟨0⟩, "")]⟩)]])])]])]

end Unchecked

end YapLang
