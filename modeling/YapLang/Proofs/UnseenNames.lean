import Mathlib.Data.Set.Insert
import YapLang.Proofs.PairedRuns
import YapLang.Proofs.ScopeChains

/-!
# Names that a program does not mention

A program looks up, binds and assigns to the names that stand in it, and so do the functions that it
has stored. Two machines whose scopes agree on these names, and which are the same otherwise, stay
so whatever the program does. What is bound to any other name, a built-in one or not, has no effect.
-/
namespace YapLang

namespace Scopes

/-- The same scopes inside one another, with the same bindings of the visible names. -/
structure AgreeOn (visible : Text → Prop) (first second : Scopes) : Prop where
  size : first.all.size = second.all.size
  parents : ∀ ref, first.parent? ref = second.parent? ref
  own : ∀ {x}, visible x → ∀ ref, first.own? x ref = second.own? x ref

theorem chainFrom_congr {first second : Scopes}
    (parents : ∀ ref, first.parent? ref = second.parent? ref) (fuel : Nat) (ref : ScopeRef) :
    first.chainFrom fuel ref = second.chainFrom fuel ref := by
  induction fuel generalizing ref with
  | zero => rfl
  | succ fuel ih =>
    rw [chainFrom, chainFrom, parents]
    cases second.parent? ref with
    | none => rfl
    | some parent => exact congrArg (ref :: ·) (ih parent)

namespace AgreeOn

variable {visible : Text → Prop} {first second : Scopes}

theorem next (agree : AgreeOn visible first second) : first.next = second.next := by
  rw [Scopes.next, Scopes.next, agree.size]

/-- A visible name is found in the same scope. -/
theorem resolve? (agree : AgreeOn visible first second) {x : Text} (seen : visible x)
    (ref : ScopeRef) : first.resolve? x ref = second.resolve? x ref := by
  -- the same scopes are searched, and each binds the name on both sides or on neither
  rw [Scopes.resolve?, Scopes.resolve?, chain, chain, chainFrom_congr agree.parents]
  congr 1
  funext owner
  rw [agree.own seen]

theorem get? (agree : AgreeOn visible first second) {x : Text} (seen : visible x)
    (ref : ScopeRef) : first.get? x ref = second.get? x ref := by
  rw [Scopes.get?, Scopes.get?, agree.resolve? seen]
  congr 1
  funext owner
  exact agree.own seen owner

theorem declare (agree : AgreeOn visible first second) (name : Text) (value : Value)
    (target : ScopeRef) :
    AgreeOn visible (first.declare name value target) (second.declare name value target) := by
  by_cases created : target.index < first.all.size
  · constructor
    · simpa [Scopes.declare] using agree.size
    · intro ref
      rw [parent?_declare, parent?_declare, agree.parents]
    · intro x seen ref
      rw [own?_declare first name x value target ref created,
        own?_declare second name x value target ref (agree.size ▸ created), agree.own seen]
  -- a scope that is missing is missing on both sides
  · rw [declare_of_not_created created, declare_of_not_created (agree.size ▸ created)]
    exact agree

theorem child (agree : AgreeOn visible first second) (parent : ScopeRef) :
    AgreeOn visible (first.child parent) (second.child parent) := by
  constructor
  · simpa [Scopes.child] using agree.size
  · intro ref
    by_cases isNew : ref = first.next
    · rw [isNew, parent?_child_next, agree.next, parent?_child_next]
    · rw [parent?_child_of_ne isNew, parent?_child_of_ne (agree.next ▸ isNew), agree.parents]
  · intro x seen ref
    by_cases isNew : ref = first.next
    · rw [isNew, own?_child_next, agree.next, own?_child_next]
    · rw [own?_child_of_ne isNew, own?_child_of_ne (agree.next ▸ isNew), agree.own seen]

theorem single {first second : Bindings} (same : ∀ x, visible x → first.get? x = second.get? x) :
    AgreeOn visible (.single first) (.single second) := by
  constructor
  · rfl
  · rintro ⟨_ | index⟩ <;> rfl
  · rintro x seen ⟨_ | index⟩
    · exact same x seen
    · rfl

end AgreeOn

end Scopes

namespace Machine

/-- The machines differ in bindings of names that are not visible, and in nothing else. No function
that is stored in them holds such a name. -/
structure AgreeOn (visible : Text → Prop) (m n : Machine) : Prop where
  scopes : m.scopes.AgreeOn visible n.scopes
  heap : m.heap = n.heap
  stamps : m.stamps = n.stamps
  draws : m.draws = n.draws
  output : m.output = n.output
  log : m.log = n.log
  closures : ∀ closure ∈ m.heap.closures, closure.NamesIn visible

end Machine

namespace Run

variable {visible : Text → Prop}

/-- A change to the scopes that keeps them in agreement. -/
theorem rescope_agree {m n : Machine} (agree : m.AgreeOn visible n) {first second : Scopes}
    (scopes : first.AgreeOn visible second) :
    ({ m with scopes := first } : Machine).AgreeOn visible { n with scopes := second } :=
  ⟨scopes, agree.heap, agree.stamps, agree.draws, agree.output, agree.log, agree.closures⟩

theorem redraw_agree {m n : Machine} (agree : m.AgreeOn visible n) (draws : Nat → Float) :
    ({ m with draws } : Machine).AgreeOn visible { n with draws } :=
  ⟨agree.scopes, agree.heap, agree.stamps, rfl, agree.output, agree.log, agree.closures⟩

/-- Names that are not visible are out of reach for every operation of the machine. -/
theorem lockstep_agree (visible : Text → Prop) (settings : Settings) :
    Lockstep (Machine.AgreeOn visible) visible settings settings where
  patience := rfl
  heap := Machine.AgreeOn.heap
  closures := Machine.AgreeOn.closures
  readName := by
    intro scope name seen
    apply Paired.get
    intro m n agree
    rw [agree.scopes.get? seen]
    cases n.scopes.get? name scope with
    | none => exact .fail _
    | some value => exact .pure value
  assignName := by
    intro scope name value seen
    apply Paired.get
    intro m n agree
    rw [agree.scopes.resolve? seen]
    cases n.scopes.resolve? name scope with
    | none => exact .fail _
    | some owner =>
      -- the owner is the same, so the value is bound at the same place
      refine (Paired.changing fun m n agree => ?_).bind fun _ => .pure value
      exact rescope_agree agree (agree.scopes.declare name value owner)
  declareName := by
    intro scope name value _
    apply Paired.changing
    intro m n agree
    exact rescope_agree agree (agree.scopes.declare name value scope)
  openScope := by
    intro parent
    apply Paired.modifyGet
    intro m n agree
    exact ⟨agree.scopes.next, rescope_agree agree (agree.scopes.child parent)⟩
  newArray := by
    intro items
    apply Paired.modifyGet
    intro m n agree
    have heap := agree.heap
    constructor
    · rw [heap]
    · exact { agree with heap := by simp only [heap] }
  changeItems := by
    intro ref f
    apply Paired.changing
    intro m n agree
    have heap := agree.heap
    exact { agree with heap := by simp only [heap] }
  newClosure := by
    intro closure seen
    apply Paired.modifyGet
    intro m n agree
    have heap := agree.heap
    constructor
    · rw [heap]
    · refine { agree with heap := by simp only [heap], closures := ?_ }
      intro stored member
      -- the names of the new function are visible, as those of the others are
      rcases Array.mem_push.1 member with old | rfl
      · exact agree.closures stored old
      · exact seen
  newMethod := by
    intro name ref
    apply Paired.modifyGet
    intro m n agree
    have stamps := agree.stamps
    constructor
    · rw [stamps]
    · exact { agree with stamps := by simp only [stamps] }
  write := by
    intro text
    apply Paired.write rfl
    intro m n agree
    have output := agree.output
    exact { agree with output := by simp only [output] }
  drawNumber := by
    apply Paired.modifyGet
    rintro ⟨_, _, _, draws, _, _⟩ ⟨_, _, _, _, _, _⟩ agree
    obtain rfl : draws = _ := agree.draws
    exact ⟨rfl, redraw_agree agree _⟩
  note := by
    intro level message
    unfold note
    split
    · apply Paired.changing
      intro m n agree
      have log := agree.log
      have heap := agree.heap
      exact { agree with log := by simp only [log, heap] }
    · exact .pure _

open Machine

theorem agree_start (visible : Text → Prop) {first second : Bindings}
    (same : ∀ x, visible x → first.get? x = second.get? x) (draws : Nat → Float) :
    (start first draws).AgreeOn visible (start second draws) where
  scopes := .single same
  heap := rfl
  stamps := rfl
  draws := rfl
  output := rfl
  log := rfl
  closures := by simp [start, Heap.empty]

/-- A program that does not mention certain names does the same whatever they are bound to, if to
anything: it gives the same value or halts for the same reason, prints and logs the same, and leaves
all other names with the same values, in arrays and functions that are the same. -/
theorem unmentioned_names_never_matter (hidden : Set Text) (body : List Node)
    (unmentioned : ∀ name ∈ Tree.namesOfAll body, name ∉ hidden) (first second : Bindings)
    (firstBuiltIn : ∀ name, name ∉ hidden → first.get? name = builtins.get? name)
    (secondBuiltIn : ∀ name, name ∉ hidden → second.get? name = builtins.get? name)
    (settings : Settings) (limit : Nat) (draws : Nat → Float) :
    SameEnd
      (fun m n => m.output = n.output ∧ m.log = n.log ∧ m.heap = n.heap ∧
        ∀ name, name ∉ hidden → ∀ scope, m.scopes.get? name scope = n.scopes.get? name scope)
      (program settings limit globalScope body (start first draws))
      (program settings limit globalScope body (start second draws)) := by
  have alike := agree_start (· ∉ hidden)
    (fun name seen => (firstBuiltIn name seen).trans (secondBuiltIn name seen).symm) draws
  have ends := program_paired (lockstep_agree _ settings) limit globalScope unmentioned _ _ alike
  apply ends.mono
  intro m n agree
  exact ⟨agree.output, agree.log, agree.heap, fun name seen => agree.scopes.get? seen⟩

/-- A program that calls a method and a function of its own runs the same where `print` is not bound
and where it is bound to a number. -/
theorem unmentioned_names_never_matter_print :
    let body : List Node :=
      [ .declaration "items" (some (.array [.text "a"])),
        .function "add" ["x"]
          [.returning (some (.call (.property (.identifier "items") "push") [.identifier "x"]))],
        .returning (some (.call (.identifier "add") [.identifier "items"])) ]
    let without : Bindings := builtins.filter (·.1 ≠ "print")
    let changed := builtins.bind "print" (.number 0.0)
    without.get? "print" = none ∧ changed.get? "print" = some (.number 0.0) ∧
      (∀ name ∈ Tree.namesOfAll body, name ∉ ({("print" : Text)} : Set Text)) ∧
      SameEnd
        (fun m n => m.output = n.output ∧ m.log = n.log ∧ m.heap = n.heap ∧
          ∀ name, name ∉ ({("print" : Text)} : Set Text) →
            ∀ scope, m.scopes.get? name scope = n.scopes.get? name scope)
        (program ⟨3, 10, .memory⟩ 10 globalScope body (start without fun _ => 0))
        (program ⟨3, 10, .memory⟩ 10 globalScope body (start changed fun _ => 0)) := by
  intro body without changed
  have unmentioned : ∀ name ∈ Tree.namesOfAll body, name ∉ ({("print" : Text)} : Set Text) := by
    simp [body, Tree.names, Tree.namesOfAll, Tree.namesOfOptional]
  refine ⟨by decide, by simp [changed, Bindings.get?_bind], unmentioned, ?_⟩
  apply unmentioned_names_never_matter _ _ unmentioned
  · intro name other
    have isOther : "print" ≠ name := fun same => other same.symm
    simp [without, builtins, Bindings.get?, isOther]
  · intro name other
    have isOther : "print" ≠ name := fun same => other same.symm
    simp [changed, Bindings.get?_bind, isOther]

end Run

end YapLang
