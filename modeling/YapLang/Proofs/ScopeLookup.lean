import YapLang.Proofs.MachineSteps

/-!
# What is seen from a scope

A name is looked up from a scope outward, and the first scope on the way that binds it decides. So
an assignment is seen from exactly those scopes from which the name leads to the same binding,
wherever their ways outward meet, and a declaration from exactly those whose way outward reaches the
scope of the declaration before any other binding of the name. Everything else is seen as before.
There may be any number of outermost scopes.
-/
namespace YapLang

namespace Scopes

/-- The way outward from the first scope comes to the second one, and no scope before that binds the
name. -/
inductive Unshadowed (scopes : Scopes) (name : Text) : ScopeRef → ScopeRef → Prop where
  | here {ref} : Unshadowed scopes name ref ref
  | outward {ref parent target} :
      scopes.own? name ref = none → scopes.parent? ref = some parent →
      Unshadowed scopes name parent target → Unshadowed scopes name ref target

/-! ### Lookup, one scope at a time -/

variable {scopes after : Scopes} {name x : Text} {value : Value} {ref target owner : ScopeRef}

theorem Ordered.chain_eq (ordered : scopes.Ordered) (ref : ScopeRef) :
    scopes.chain ref = ref :: ((scopes.parent? ref).map scopes.chain).getD [] := by
  apply (isChain_chain ordered ref).unique
  cases found : scopes.parent? ref with
  | none => exact .outermost found
  | some parent => exact .inside found (isChain_chain ordered parent)

/-- A name is found in the scope itself, or is looked up from the scope around it. -/
theorem Ordered.resolve?_eq (ordered : scopes.Ordered) (name : Text) (ref : ScopeRef) :
    scopes.resolve? name ref =
      if (scopes.own? name ref).isSome then some ref
      else (scopes.parent? ref).bind (scopes.resolve? name) := by
  rw [resolve?, ordered.chain_eq, List.find?_cons]
  cases (scopes.own? name ref).isSome with
  | true => rfl
  | false => cases scopes.parent? ref <;> rfl

/-- What holds of a scope as soon as it holds of the one around it holds of every scope. -/
theorem Ordered.outward_induction (ordered : scopes.Ordered) {motive : ScopeRef → Prop}
    (step : ∀ ref, (∀ parent, scopes.parent? ref = some parent → motive parent) → motive ref)
    (ref : ScopeRef) : motive ref := by
  obtain ⟨index⟩ := ref
  induction index using Nat.strong_induction_on with
  | _ index ih =>
    apply step
    intro parent found
    exact ih parent.index (ordered _ parent found)

/-- The nearest binding is the one that no other one hides. -/
theorem Ordered.resolve?_eq_some_iff (ordered : scopes.Ordered) :
    scopes.resolve? name ref = some owner ↔
      scopes.Unshadowed name ref owner ∧ (scopes.own? name owner).isSome := by
  constructor
  · -- the way is built up from its outer end
    induction ref using ordered.outward_induction with
    | step ref ih =>
      intro resolved
      rw [ordered.resolve?_eq] at resolved
      split at resolved
      next bound =>
        cases resolved
        exact ⟨.here, bound⟩
      next free =>
        obtain ⟨parent, found, resolved⟩ := Option.bind_eq_some_iff.1 resolved
        obtain ⟨way, bound⟩ := ih parent found resolved
        exact ⟨.outward (by simpa using free) found way, bound⟩
  · rintro ⟨way, bound⟩
    induction way with
    | here => rw [ordered.resolve?_eq, if_pos bound]
    | outward free found _ ih =>
      rw [ordered.resolve?_eq, free, found]
      exact ih bound

/-- Where the scopes lie as before, and the same ones bind a name, it is found where it was. -/
theorem Ordered.resolve?_congr (ordered : scopes.Ordered) (stillOrdered : after.Ordered)
    (parents : ∀ ref, after.parent? ref = scopes.parent? ref)
    (bound : ∀ ref, (after.own? name ref).isSome = (scopes.own? name ref).isSome) (ref : ScopeRef) :
    after.resolve? name ref = scopes.resolve? name ref := by
  induction ref using ordered.outward_induction with
  | step ref ih =>
    rw [stillOrdered.resolve?_eq, ordered.resolve?_eq, bound, parents]
    cases found : scopes.parent? ref with
    | none => rfl
    | some parent => rw [Option.bind_some, Option.bind_some, ih parent found]

/-! ### Lookup after a declaration -/

section

variable (ordered : scopes.Ordered) (created : target.index < scopes.all.size)
include ordered created

theorem get?_declare_of_ne (other : x ≠ name) (ref : ScopeRef) :
    (scopes.declare name value target).get? x ref = scopes.get? x ref := by
  have same (ref : ScopeRef) :
      (scopes.declare name value target).own? x ref = scopes.own? x ref := by
    rw [own?_declare _ _ _ _ _ _ created, if_neg (fun both => other both.2.symm)]
  have resolved : (scopes.declare name value target).resolve? x ref = scopes.resolve? x ref := by
    apply ordered.resolve?_congr (ordered.declare name value target)
    · intro ref
      exact parent?_declare ..
    · intro ref
      rw [same]
  rw [get?, get?, resolved]
  cases scopes.resolve? x ref with
  | none => rfl
  | some owner => exact same owner

/-- The scope of the declaration is the first one on the way that binds the name. -/
theorem get?_declare_of_unshadowed (way : scopes.Unshadowed name ref target) :
    (scopes.declare name value target).get? name ref = some value := by
  have stillOrdered := ordered.declare name value target
  have bound : (scopes.declare name value target).own? name target = some value := by
    rw [own?_declare _ _ _ _ _ _ created, if_pos ⟨rfl, rfl⟩]
  -- a scope on the way before that one binds the name no more than it did
  have resolved : (scopes.declare name value target).resolve? name ref = some target := by
    induction way with
    | here => rw [stillOrdered.resolve?_eq, bound, Option.isSome_some, if_pos rfl]
    | @outward ref parent target free found _ ih =>
      by_cases same : target = ref
      · subst same
        rw [stillOrdered.resolve?_eq, bound, Option.isSome_some, if_pos rfl]
      · have stillFree : (scopes.declare name value target).own? name ref = none := by
          rw [own?_declare _ _ _ _ _ _ created, if_neg (fun both => same both.1), free]
        rw [stillOrdered.resolve?_eq, stillFree, parent?_declare, found]
        exact ih created stillOrdered bound
  rw [get?, resolved]
  exact bound

/-- Another binding hides the declaration, or the way outward does not lead there. -/
theorem get?_declare_of_not_unshadowed (hidden : ¬scopes.Unshadowed name ref target) :
    (scopes.declare name value target).get? name ref = scopes.get? name ref := by
  have stillOrdered := ordered.declare name value target
  have elsewhere {ref : ScopeRef} (different : target ≠ ref) :
      (scopes.declare name value target).own? name ref = scopes.own? name ref := by
    rw [own?_declare _ _ _ _ _ _ created, if_neg (fun both => different both.1)]
  have resolved :
      (scopes.declare name value target).resolve? name ref = scopes.resolve? name ref := by
    induction ref using ordered.outward_induction with
    | step ref ih =>
      have different : target ≠ ref := by
        rintro rfl
        exact hidden .here
      rw [stillOrdered.resolve?_eq, ordered.resolve?_eq, elsewhere different, parent?_declare]
      split
      · rfl
      next free =>
        cases found : scopes.parent? ref with
        | none => rfl
        | some parent =>
          -- the declaration is hidden from the scope around, too
          apply ih parent found
          intro way
          exact hidden (.outward (by simpa using free) found way)
  rw [get?, get?, resolved]
  cases found : scopes.resolve? name ref with
  | none => rfl
  | some owner =>
    apply elsewhere
    rintro rfl
    exact hidden (ordered.resolve?_eq_some_iff.1 found).1

end

/-! ### Lookup after an assignment -/

section

variable (ordered : scopes.Ordered) (resolved : scopes.resolve? name target = some owner)
include ordered resolved

/-- A scope that binds a name is there. -/
theorem created_of_resolve? : owner.index < scopes.all.size := by
  have bound := (ordered.resolve?_eq_some_iff.1 resolved).2
  apply Nat.lt_of_not_le
  intro missing
  simp [own?, bindings, Array.getElem?_eq_none missing, Bindings.get?] at bound

/-- No scope gains a name, so all names are found where they were. -/
theorem resolve?_assign (ref : ScopeRef) :
    (scopes.declare name value owner).resolve? x ref = scopes.resolve? x ref := by
  have bound := (ordered.resolve?_eq_some_iff.1 resolved).2
  apply ordered.resolve?_congr (ordered.declare name value owner)
  · intro ref
    exact parent?_declare ..
  · intro ref
    rw [own?_declare _ _ _ _ _ _ (created_of_resolve? ordered resolved)]
    split
    next both => rw [Option.isSome_some, ← both.1, ← both.2, bound]
    · rfl

theorem get?_assign (x : Text) (value : Value) (ref : ScopeRef) :
    (scopes.declare name value owner).get? x ref =
      if x = name ∧ scopes.resolve? name ref = some owner then some value
      else scopes.get? x ref := by
  have created := created_of_resolve? ordered resolved
  rw [get?, get?, resolve?_assign ordered resolved]
  by_cases same : x = name
  · subst same
    cases found : scopes.resolve? x ref with
    | none => simp
    | some other =>
      simp only [Option.bind_some, own?_declare _ _ _ _ _ _ created, Option.some.injEq]
      simp [eq_comm]
  · rw [if_neg (fun both => same both.1)]
    cases scopes.resolve? x ref with
    | none => rfl
    | some other =>
      rw [Option.bind_some, own?_declare _ _ _ _ _ _ created,
        if_neg (fun both => same both.2.symm), Option.bind_some]

end

end Scopes

/-! ### The operations of the machine -/

namespace Run

/-- What a run gives: a value, or the reason for which it halts. -/
def answer {α : Type} (x : Run α) (m : Machine) : Except Halt α :=
  match x m with
  | .ok a _ => .ok a
  | .error halt _ => .error halt

variable (scope : ScopeRef) (name : Text) (value : Value) (m : Machine)

theorem readName_eq :
    readName scope name m =
      match m.scopes.get? name scope with
      | some value => .ok value m
      | none => .error (.fault (.undefinedName name)) m := by
  rw [readName, get_bind]
  cases m.scopes.get? name scope <;> rfl

theorem assignName_eq :
    assignName scope name value m =
      match m.scopes.resolve? name scope with
      | some owner => .ok value { m with scopes := m.scopes.declare name value owner }
      | none => .error (.fault (.undeclaredTarget name)) m := by
  rw [assignName, get_bind]
  cases m.scopes.resolve? name scope <;> rfl

variable {scope name value m}

/-- Two states in which a name has the same value from a scope, or has none. -/
theorem answer_readName_congr {m' : Machine}
    (same : m'.scopes.get? name scope = m.scopes.get? name scope) :
    answer (readName scope name) m' = answer (readName scope name) m := by
  rw [answer, answer, readName_eq, readName_eq, same]
  cases m.scopes.get? name scope <;> rfl

theorem answer_readName_of_get? (found : m.scopes.get? name scope = some value) :
    answer (readName scope name) m = .ok value := by
  rw [answer, readName_eq, found]

/-- A name that is bound on the way outward has a value. -/
theorem isSome_get? (ordered : m.scopes.Ordered) (scope : ScopeRef) (name : Text) :
    (m.scopes.get? name scope).isSome = (m.scopes.resolve? name scope).isSome := by
  rw [Scopes.get?]
  cases found : m.scopes.resolve? name scope with
  | none => rfl
  | some owner => exact (ordered.resolve?_eq_some_iff.1 found).2

end Run

namespace Machine

/-- The states that come of creating scopes, outermost ones and inner ones, and of declaring names
in them and assigning to names from them. -/
inductive Furnished : Machine → Prop where
  | empty {m} : m.scopes.all = #[] → Furnished m
  | outermost {m} : Furnished m → Furnished { m with scopes := ⟨m.scopes.all.push ⟨none, []⟩⟩ }
  | child {m parent} :
      Furnished m → m.HasScope parent → Furnished (Run.final (Run.openScope parent) m)
  | declare {m scope} (name value) :
      Furnished m → m.HasScope scope → Furnished (Run.final (Run.declareName scope name value) m)
  | assign {m scope} (name value) :
      Furnished m → m.HasScope scope → Furnished (Run.final (Run.assignName scope name value) m)

theorem Furnished.ordered {m : Machine} (furnished : m.Furnished) : m.scopes.Ordered := by
  induction furnished with
  | empty none =>
    intro ref parent found
    simp [Scopes.parent?, none] at found
  | @outermost m _ ih =>
    intro ref parent found
    -- the new scope lies inside no other one
    rw [Scopes.parent?, Array.getElem?_push] at found
    split at found
    · cases found
    · exact ih ref parent found
  | child _ isThere ih => exact ih.child isThere
  | declare name value _ _ ih => exact ih.declare name value _
  | @assign m scope name value _ _ ih =>
    rw [Run.final, Run.assignName_eq]
    cases m.scopes.resolve? name scope with
    | none => exact ih
    | some owner => exact ih.declare name value owner

/-- From the scopes from which it is changed, a name has the given value; from all others, it has
the value that it had before, or none as before. -/
def ReadsAnew (before after : Machine) (value : Value) (changed : ScopeRef → Text → Prop) :
    Prop :=
  ∀ ref x,
    (changed ref x → Run.answer (Run.readName ref x) after = .ok value) ∧
    (¬changed ref x →
      Run.answer (Run.readName ref x) after = Run.answer (Run.readName ref x) before)

variable {m : Machine} {scope : ScopeRef} {name : Text} {value : Value}

theorem readsAnew_assign {owner : ScopeRef} (ordered : m.scopes.Ordered)
    (resolved : m.scopes.resolve? name scope = some owner) (value : Value) :
    ReadsAnew m { m with scopes := m.scopes.declare name value owner } value fun ref x =>
      x = name ∧ m.scopes.resolve? name ref = m.scopes.resolve? name scope := by
  intro ref x
  have found := Scopes.get?_assign ordered resolved x value ref
  rw [resolved]
  constructor
  · intro seen
    rw [if_pos seen] at found
    exact Run.answer_readName_of_get? found
  · intro unseen
    rw [if_neg unseen] at found
    exact Run.answer_readName_congr found

theorem readsAnew_declare (ordered : m.scopes.Ordered) (isThere : m.HasScope scope) :
    ReadsAnew m (Run.final (Run.declareName scope name value) m) value fun ref x =>
      x = name ∧ m.scopes.Unshadowed name ref scope := by
  intro ref x
  constructor
  · rintro ⟨rfl, way⟩
    exact Run.answer_readName_of_get? (Scopes.get?_declare_of_unshadowed ordered isThere way)
  · intro unseen
    apply Run.answer_readName_congr
    by_cases same : x = name
    · subst same
      exact Scopes.get?_declare_of_not_unshadowed ordered isThere fun way => unseen ⟨rfl, way⟩
    · exact Scopes.get?_declare_of_ne ordered isThere same ref

/-- The laws of names and scopes, however the scopes came about. A name can be read from a scope,
and assigned to from it, exactly if it is bound on the way outward. An assignment is seen from the
scopes from which the name leads to the same binding; a declaration is seen from the scopes whose
way outward reaches its scope before another binding of the name; otherwise every name is seen as
before. An attempt to read a name, or to assign to it, that fails leaves the whole machine as it
was. -/
theorem scopes_keep_names (furnished : m.Furnished) (isThere : m.HasScope scope) (name : Text)
    (value : Value) :
    ((m.scopes.resolve? name scope).isSome ↔ ∃ found, Run.readName scope name m = .ok found m) ∧
    ((m.scopes.resolve? name scope).isSome ↔
      ∃ m', Run.assignName scope name value m = .ok value m') ∧
    (∀ given m', Run.assignName scope name value m = .ok given m' →
      given = value ∧ ReadsAnew m m' value fun ref x =>
        x = name ∧ m.scopes.resolve? name ref = m.scopes.resolve? name scope) ∧
    (ReadsAnew m (Run.final (Run.declareName scope name value) m) value fun ref x =>
      x = name ∧ m.scopes.Unshadowed name ref scope) ∧
    (∀ halt m', Run.readName scope name m = .error halt m' → m' = m) ∧
    ∀ halt m', Run.assignName scope name value m = .error halt m' → m' = m := by
  have ordered := furnished.ordered
  have bound := Run.isSome_get? ordered scope name
  simp only [Run.readName_eq, Run.assignName_eq, ← bound]
  refine ⟨?_, ?_, ?_, readsAnew_declare ordered isThere, ?_, ?_⟩
  · cases m.scopes.get? name scope <;> simp
  · rw [bound]
    cases m.scopes.resolve? name scope <;> simp
  · intro given m' assigned
    cases resolved : m.scopes.resolve? name scope with
    | none =>
      rw [resolved] at assigned
      cases assigned
    | some owner =>
      rw [resolved] at assigned
      cases assigned
      have anew := readsAnew_assign ordered resolved value
      rw [resolved] at anew
      exact ⟨rfl, anew⟩
  · intro halt m' failed
    cases found : m.scopes.get? name scope <;> rw [found] at failed <;> cases failed
    rfl
  · intro halt m' failed
    cases found : m.scopes.resolve? name scope <;> rw [found] at failed <;> cases failed
    rfl

/-- Two scopes inside an outermost one, of which the second declares the name for itself and for the
scope inside it. What is assigned from the first is seen from the outermost one, and from neither of
the other two; what is declared in the outermost one is seen from the first. -/
theorem scopes_keep_names_siblings :
    let root : Machine := { start [] 0 with scopes := ⟨#[⟨none, []⟩]⟩ }
    let named := Run.final (Run.declareName ⟨0⟩ "a" .undefined) root
    let parted := Run.final (Run.openScope ⟨0⟩) (Run.final (Run.openScope ⟨0⟩) named)
    let hidden := Run.final (Run.declareName ⟨2⟩ "a" (.bool false)) parted
    let m := Run.final (Run.openScope ⟨2⟩) hidden
    let assigned := Run.final (Run.assignName ⟨1⟩ "a" (.bool true)) m
    let declared := Run.final (Run.declareName ⟨0⟩ "a" (.text "new")) m
    let seen (m : Machine) (index : Nat) := Run.answer (Run.readName ⟨index⟩ "a") m
    m.Furnished ∧ m.HasScope ⟨1⟩ ∧ m.HasScope ⟨0⟩ ∧
      seen assigned 0 = .ok (.bool true) ∧ seen assigned 3 = seen m 3 ∧
      seen declared 1 = .ok (.text "new") ∧ seen declared 2 = seen m 2 := by
  intro root named parted hidden m assigned declared seen
  have isThere {m : Machine} {index size : Nat} (count : m.scopes.all.size = size)
      (below : index < size) : m.HasScope ⟨index⟩ := by
    rw [HasScope, count]
    exact below
  have rootFurnished : root.Furnished :=
    .outermost (.empty (rfl : ({ start [] 0 with scopes := ⟨#[]⟩ } : Machine).scopes.all = #[]))
  have namedFurnished : named.Furnished := .declare _ _ rootFurnished (isThere rfl Nat.one_pos)
  have partedFurnished : parted.Furnished :=
    .child (.child namedFurnished (isThere rfl Nat.one_pos)) (isThere rfl Nat.two_pos)
  have furnished : m.Furnished :=
    .child (.declare _ _ partedFurnished (isThere rfl (by decide))) (isThere rfl (by decide))
  have first : m.HasScope ⟨1⟩ := isThere rfl (by decide)
  have outer : m.HasScope ⟨0⟩ := isThere rfl (by decide)
  obtain ⟨-, -, assignment, -⟩ := scopes_keep_names furnished first "a" (.bool true)
  obtain ⟨-, -, -, declaration, -⟩ := scopes_keep_names furnished outer "a" (.text "new")
  have anew := (assignment (.bool true) assigned rfl).2
  refine ⟨furnished, first, outer, (anew ⟨0⟩ "a").1 ⟨rfl, rfl⟩, (anew ⟨3⟩ "a").2 ?_,
    (declaration ⟨1⟩ "a").1 ⟨rfl, ?_⟩, (declaration ⟨2⟩ "a").2 ?_⟩
  · rintro ⟨-, same⟩
    exact absurd same (by decide)
  · exact .outward rfl rfl .here
  · rintro ⟨-, way⟩
    cases way with
    | outward free => cases free

end Machine

end YapLang
