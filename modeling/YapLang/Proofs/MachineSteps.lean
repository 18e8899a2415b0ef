import Mathlib.Logic.Relation
import Mathlib.Order.UpperLower.Principal
import YapLang.Proofs.ScopeChains

/-!
# What a run can do to the machine

Whatever a program is, its run changes the machine in a few ways only: a scope is opened, a name is
bound, an array or a function is created, items are pushed onto an array or popped from it, and
nothing else touches scopes or heap. Each of these is a step. Everything that holds at all times is
read off the steps: what a value refers to is there, scopes and arrays stay, a scope lies inside an
earlier one and keeps its names. A step that opens a scope or creates a function needs room for the
scopes that may come of it; the room is a parameter, and may be unlimited.
-/
namespace YapLang

/-! ### How deep scopes can lie inside each other -/

namespace Tree

variable {τ : Type}

mutual

/-- How many scopes the statement can open inside each other, calls apart: a function counts as if
it were called where it is declared. The header of a `for` loop has a scope of its own around those
of the rounds. -/
def nesting : Tree τ → Nat
  | block body | function _ _ body | whileLoop _ body => 1 + nestingOfAll body
  | forLoop _ _ _ body => 1 + (1 + nestingOfAll body)
  | conditional _ consequent alternate =>
    max (1 + nestingOfAll consequent) (nestingOfOptional alternate)
  | _ => 0

/-- The greatest nesting of the statements. -/
def nestingOfAll : List (Tree τ) → Nat
  | [] => 0
  | tree :: rest => max (nesting tree) (nestingOfAll rest)

def nestingOfOptional : Option (Tree τ) → Nat
  | none => 0
  | some tree => nesting tree

end

theorem nesting_le_nestingOfAll {tree : Tree τ} {body : List (Tree τ)} (member : tree ∈ body) :
    tree.nesting ≤ nestingOfAll body := by
  induction body with
  | nil => cases member
  | cons first rest ih =>
    rw [nestingOfAll]
    rcases List.mem_cons.1 member with rfl | member
    · exact Nat.le_max_left _ _
    · exact Nat.le_trans (ih member) (Nat.le_max_right _ _)

end Tree

/-! ### Changes of arrays -/

/-- What a program can do to the items of an array. -/
inductive ItemChange where
  | push (values : List Value)
  | pop

namespace ItemChange

def apply : ItemChange → Array Value → Array Value
  | push values, items => items ++ values.toArray
  | pop, items => items.pop

/-- The values that come into the array. -/
def values : ItemChange → List Value
  | push values => values
  | pop => []

/-- What is logged when the change is made. -/
def entry : ItemChange → LogEntry
  | push _ => ⟨3, "call native push"⟩
  | pop => ⟨3, "call native pop"⟩

theorem mem_apply {change : ItemChange} {items : Array Value} {value : Value}
    (member : value ∈ change.apply items) : value ∈ items ∨ value ∈ change.values := by
  cases change with
  | push values => simpa [apply, ItemChange.values] using member
  | pop =>
    left
    rw [apply, Array.mem_def, Array.toList_pop] at member
    exact Array.mem_def.2 ((List.dropLast_sublist _).mem member)

end ItemChange

/-- The entry says that an array is changed. -/
def LogEntry.isChange (entry : LogEntry) : Bool :=
  entry = ⟨3, "call native push"⟩ || entry = ⟨3, "call native pop"⟩

namespace ItemChange

theorem isChange_entry (change : ItemChange) : change.entry.isChange := by
  cases change <;> simp [entry, LogEntry.isChange]

theorem level_entry (change : ItemChange) : change.entry.level = 3 := by
  cases change <;> rfl

end ItemChange

namespace Heap

theorem items_push (heap : Heap) (added : Array Value) (ref : ArrayRef) :
    ({ heap with arrays := heap.arrays.push added } : Heap).items ref =
      if ref.index = heap.arrays.size then added else heap.items ref := by
  simp only [items, Array.getD_eq_getD_getElem?, Array.getElem?_push]
  split <;> rfl

theorem items_modify (heap : Heap) (changed ref : ArrayRef) (f : Array Value → Array Value) :
    ({ heap with arrays := heap.arrays.modify changed.index f } : Heap).items ref =
      if changed = ref ∧ ref.index < heap.arrays.size then f (heap.items ref)
      else heap.items ref := by
  obtain ⟨i⟩ := changed
  obtain ⟨j⟩ := ref
  simp only [items, Array.getD_eq_getD_getElem?, Array.getElem?_modify, ArrayRef.mk.injEq]
  by_cases same : i = j
  · subst same
    by_cases inside : i < heap.arrays.size
    · simp [inside]
    · simp [inside]
  · simp [same]

end Heap

/-! ### States -/

namespace Machine

def HasScope (m : Machine) (ref : ScopeRef) : Prop :=
  ref.index < m.scopes.all.size

def HasArray (m : Machine) (ref : ArrayRef) : Prop :=
  ref.index < m.heap.arrays.size

/-- What the value refers to is there. -/
def Holds (m : Machine) : Value → Prop
  | .array ref | .method _ _ ref => m.HasArray ref
  | .closure ref => ref.index < m.heap.closures.size
  | _ => True

/-- The state after a message, which is logged if messages of its level are wanted. -/
def logged (settings : Settings) (entry : LogEntry) (m : Machine) : Machine :=
  { m with log := if entry.level ≤ settings.verbosity then m.log.push entry else m.log }

/-- The state after a change of an array and the message about it. -/
def change (settings : Settings) (ref : ArrayRef) (change : ItemChange) (m : Machine) : Machine :=
  { m.logged settings change.entry with
    heap := { m.heap with arrays := m.heap.arrays.modify ref.index change.apply } }

/-- The logged changes of arrays. -/
def changeEntries (m : Machine) : List LogEntry :=
  m.log.toList.filter LogEntry.isChange

/-- All references lead somewhere, and scopes lie inside earlier ones. -/
structure WellFormed (m : Machine) : Prop where
  ordered : m.scopes.Ordered
  captured : ∀ closure ∈ m.heap.closures, m.HasScope closure.scope
  bindings : ∀ ref name value, m.scopes.own? name ref = some value → m.Holds value
  items : ∀ ref, ∀ value ∈ m.heap.items ref, m.Holds value

/-- The scope is there, and there is room for so many scopes inside it. -/
structure Fits (room : LowerSet ℕ) (m : Machine) (scope : ScopeRef) (depth : Nat) : Prop where
  isThere : m.HasScope scope
  hasRoom : m.scopes.height scope + depth ∈ room

/-- The state is well formed, and there is room for its scopes and for those that calls of its
functions may open. -/
structure Sound (room : LowerSet ℕ) (m : Machine) : Prop extends WellFormed m where
  heights : ∀ ref, m.HasScope ref → m.scopes.height ref ∈ room
  bodies : ∀ closure ∈ m.heap.closures,
    m.Fits room closure.scope (1 + Tree.nestingOfAll closure.body)

/-- What is there stays there: scopes with their names and the scopes around them, arrays and
functions. -/
structure Grows (before after : Machine) : Prop where
  scopes : Scopes.Extends (fun _ _ => True) before.scopes after.scopes
  arrays : before.heap.arrays.size ≤ after.heap.arrays.size
  closures : before.heap.closures.size ≤ after.heap.closures.size

namespace Grows

variable {before after last : Machine}

theorem refl (m : Machine) : Grows m m :=
  ⟨.refl _, Nat.le_refl _, Nat.le_refl _⟩

theorem trans (first : Grows before after) (second : Grows after last) : Grows before last where
  scopes := first.scopes.trans second.scopes
  arrays := Nat.le_trans first.arrays second.arrays
  closures := Nat.le_trans first.closures second.closures

theorem hasScope (grows : Grows before after) {ref : ScopeRef} (isThere : before.HasScope ref) :
    after.HasScope ref :=
  Nat.lt_of_lt_of_le isThere grows.scopes.grown

theorem hasArray (grows : Grows before after) {ref : ArrayRef} (isThere : before.HasArray ref) :
    after.HasArray ref :=
  Nat.lt_of_lt_of_le isThere grows.arrays

theorem holds (grows : Grows before after) {value : Value} (held : before.Holds value) :
    after.Holds value := by
  cases value with
  | array ref => exact grows.hasArray held
  | method stamp name ref => exact grows.hasArray held
  | closure ref => exact Nat.lt_of_lt_of_le held grows.closures
  | _ => trivial

theorem height (grows : Grows before after) (wellFormed : before.WellFormed)
    (stillWellFormed : after.WellFormed) {ref : ScopeRef} (isThere : before.HasScope ref) :
    after.scopes.height ref = before.scopes.height ref :=
  Scopes.height_of_extends grows.scopes wellFormed.ordered stillWellFormed.ordered isThere

end Grows

namespace Fits

variable {room : LowerSet ℕ} {m m' : Machine} {scope : ScopeRef} {depth : Nat}

theorem mono (fits : m.Fits room scope depth) {less : Nat} (isLess : less ≤ depth) :
    m.Fits room scope less :=
  ⟨fits.isThere, room.lower (Nat.add_le_add_left isLess _) fits.hasRoom⟩

theorem grows (fits : m.Fits room scope depth) (wellFormed : m.WellFormed)
    (stillWellFormed : m'.WellFormed) (grows : Grows m m') : m'.Fits room scope depth := by
  constructor
  · exact grows.hasScope fits.isThere
  · rw [grows.height wellFormed stillWellFormed fits.isThere]
    exact fits.hasRoom

end Fits

end Machine

/-! ### Steps -/

open Machine

/-- One thing that a run does to the machine. -/
inductive Step (room : LowerSet ℕ) (settings : Settings) (m : Machine) : Machine → Prop where
  /-- A scope is opened, where there is room for it. -/
  | opens {parent} :
      m.Fits room parent 1 →
      Step room settings m { m with scopes := m.scopes.child parent }
  /-- A name is bound, by a declaration or an assignment. -/
  | binds {scope name value} :
      m.Holds value →
      Step room settings m { m with scopes := m.scopes.declare name value scope }
  | creates {items} :
      (∀ value ∈ items, m.Holds value) →
      Step room settings m { m with heap := { m.heap with arrays := m.heap.arrays.push items } }
  /-- A function is created, where there is room for what its calls may open. -/
  | defines {closure} :
      m.Fits room closure.scope (1 + Tree.nestingOfAll closure.body) →
      Step room settings m
        { m with heap := { m.heap with closures := m.heap.closures.push closure } }
  | changes {ref change} :
      (∀ value ∈ change.values, m.Holds value) →
      Step room settings m (m.change settings ref change)
  /-- Something else happens: scopes and heap are as before, and no change of an array is logged. -/
  | passes {m' : Machine} :
      m'.scopes = m.scopes → m'.heap = m.heap → m'.changeEntries = m.changeEntries →
      Step room settings m m'

/-- Any number of steps. -/
abbrev Steps (room : LowerSet ℕ) (settings : Settings) : Machine → Machine → Prop :=
  Relation.ReflTransGen (Step room settings)

namespace Step

variable {room : LowerSet ℕ} {settings : Settings} {m m' : Machine}

theorem grows (step : Step room settings m m') : Grows m m' := by
  cases step with
  | opens => exact ⟨(Scopes.Extends.refl _).child _, Nat.le_refl _, Nat.le_refl _⟩
  | binds =>
    refine ⟨(Scopes.Extends.refl _).declare _ ?_, Nat.le_refl _, Nat.le_refl _⟩
    exact fun _ => .inr trivial
  | creates => exact ⟨.refl _, by simp, Nat.le_refl _⟩
  | defines => exact ⟨.refl _, Nat.le_refl _, by simp⟩
  | changes => exact ⟨.refl _, by simp [Machine.change], Nat.le_refl _⟩
  | passes sameScopes sameHeap _ =>
    constructor
    · rw [sameScopes]
      exact .refl _
    · rw [sameHeap]
    · rw [sameHeap]

theorem ordered (step : Step room settings m m') (ordered : m.scopes.Ordered) :
    m'.scopes.Ordered := by
  cases step with
  | opens fits => exact ordered.child fits.isThere
  | binds => exact ordered.declare _ _ _
  | creates | defines | changes => exact ordered
  | passes sameScopes _ _ =>
    rw [sameScopes]
    exact ordered

/-- What is bound after the step was bound before, or is what the step binds. -/
theorem bindings (step : Step room settings m m') (wellFormed : m.WellFormed)
    (ref : ScopeRef) (name : Text) (value : Value)
    (bound : m'.scopes.own? name ref = some value) : m.Holds value := by
  have held := wellFormed.bindings ref name value
  cases step with
  | opens =>
    -- the new scope binds nothing yet
    by_cases isNew : ref = m.scopes.next
    · subst isNew
      simp at bound
    · rw [Scopes.own?_child_of_ne isNew] at bound
      exact held bound
  | @binds scope _ _ isHeld =>
    by_cases created : scope.index < m.scopes.all.size
    · rw [Scopes.own?_declare _ _ _ _ _ _ created] at bound
      split at bound
      · cases bound
        exact isHeld
      · exact held bound
    · rw [Scopes.declare_of_not_created created] at bound
      exact held bound
  | creates | defines | changes => exact held bound
  | passes sameScopes _ _ =>
    rw [sameScopes] at bound
    exact held bound

/-- An item after the step was an item before, or comes in by the step. -/
theorem items (step : Step room settings m m') (wellFormed : m.WellFormed) (ref : ArrayRef)
    (value : Value) (member : value ∈ m'.heap.items ref) : m.Holds value := by
  have held := wellFormed.items ref value
  cases step with
  | opens | binds => exact held member
  | creates areHeld =>
    rw [Heap.items_push] at member
    split at member
    · exact areHeld value member
    · exact held member
  | defines => exact held member
  | changes areHeld =>
    rw [Machine.change, Heap.items_modify] at member
    split at member
    -- an item of the changed array was there before or is pushed
    · rcases ItemChange.mem_apply member with member | member
      · exact held member
      · exact areHeld value member
    · exact held member
  | passes _ sameHeap _ =>
    rw [sameHeap] at member
    exact held member

theorem captured (step : Step room settings m m') (wellFormed : m.WellFormed) (closure : Closure)
    (member : closure ∈ m'.heap.closures) : m.HasScope closure.scope := by
  cases step with
  | opens | binds | creates | changes => exact wellFormed.captured closure member
  | defines fits =>
    rcases Array.mem_push.1 member with member | rfl
    · exact wellFormed.captured closure member
    · exact fits.isThere
  | passes _ sameHeap _ =>
    rw [sameHeap] at member
    exact wellFormed.captured closure member

theorem wellFormed (step : Step room settings m m') (wellFormed : m.WellFormed) :
    m'.WellFormed where
  ordered := step.ordered wellFormed.ordered
  captured closure member := step.grows.hasScope (step.captured wellFormed closure member)
  bindings ref name value bound :=
    step.grows.holds (step.bindings wellFormed ref name value bound)
  items ref value member := step.grows.holds (step.items wellFormed ref value member)

/-- A scope that is there after the step was there before, or there was room to open it. -/
theorem heights (step : Step room settings m m') (sound : m.Sound room) (ref : ScopeRef)
    (isThere : m'.HasScope ref) : m'.scopes.height ref ∈ room := by
  have stillWellFormed := step.wellFormed sound.toWellFormed
  -- the height of a scope never changes, as the scopes around it stay
  have kept {ref : ScopeRef} (wasThere : m.HasScope ref) :=
    step.grows.height sound.toWellFormed stillWellFormed wasThere
  by_cases wasThere : m.HasScope ref
  · rw [kept wasThere]
    exact sound.heights ref wasThere
  cases step with
  | @opens parent fits =>
    -- a scope that was not there is the one that was opened
    obtain rfl : ref = m.scopes.next := by
      simp only [HasScope, Scopes.child, Array.size_push] at isThere wasThere
      exact Scopes.eq_next_iff.2 (by omega)
    rw [Scopes.height_of_parent stillWellFormed.ordered (Scopes.parent?_child_next _ parent),
      kept fits.isThere]
    exact fits.hasRoom
  | binds =>
    simp only [HasScope, Scopes.declare, Array.size_modify] at isThere
    exact absurd isThere wasThere
  | creates | defines | changes => exact absurd isThere wasThere
  | passes sameScopes _ _ =>
    rw [HasScope, sameScopes] at isThere
    exact absurd isThere wasThere

theorem bodies (step : Step room settings m m') (sound : m.Sound room) (closure : Closure)
    (member : closure ∈ m'.heap.closures) :
    m'.Fits room closure.scope (1 + Tree.nestingOfAll closure.body) := by
  -- room that there was before the step is there after it
  suffices fits : m.Fits room closure.scope (1 + Tree.nestingOfAll closure.body) from
    fits.grows sound.toWellFormed (step.wellFormed sound.toWellFormed) step.grows
  cases step with
  | opens | binds | creates | changes => exact sound.bodies closure member
  | defines fits =>
    rcases Array.mem_push.1 member with member | rfl
    · exact sound.bodies closure member
    · exact fits
  | passes _ sameHeap _ =>
    rw [sameHeap] at member
    exact sound.bodies closure member

/-- A step keeps a sound state sound. -/
theorem sound (step : Step room settings m m') (sound : m.Sound room) : m'.Sound room where
  toWellFormed := step.wellFormed sound.toWellFormed
  heights := step.heights sound
  bodies := step.bodies sound

end Step

/-! ### Any number of steps -/

namespace Steps

variable {room : LowerSet ℕ} {settings : Settings} {m m' : Machine}

theorem grows (steps : Steps room settings m m') : Grows m m' := by
  induction steps with
  | refl => exact .refl m
  | tail _ step ih => exact ih.trans step.grows

theorem sound (steps : Steps room settings m m') (sound : m.Sound room) : m'.Sound room := by
  induction steps with
  | refl => exact sound
  | tail _ step ih => exact step.sound ih

end Steps

/-! ### The changes that the steps make to arrays -/

/-- The items of an array after changes of arrays, of which some are of that one. -/
def replay (ref : ArrayRef) (changes : List (ArrayRef × ItemChange)) (items : Array Value) :
    Array Value :=
  (changes.filter fun change => change.1 = ref).foldl
    (fun items change => change.2.apply items) items

theorem replay_append (ref : ArrayRef) (first second : List (ArrayRef × ItemChange))
    (items : Array Value) :
    replay ref (first ++ second) items = replay ref second (replay ref first items) := by
  simp [replay]

/-- The arrays of the earlier state are changed in these ways and in no others. If calls of built-in
functions are logged, the log shows these changes one by one. -/
structure Changed (verbosity : Nat) (changes : List (ArrayRef × ItemChange))
    (before after : Machine) : Prop where
  items : ∀ ref, before.HasArray ref →
    after.heap.items ref = replay ref changes (before.heap.items ref)
  logged : 3 ≤ verbosity →
    after.changeEntries = before.changeEntries ++ changes.map fun change => change.2.entry

namespace Changed

variable {verbosity : Nat} {before after last : Machine}

theorem nothing (items : ∀ ref, before.HasArray ref → after.heap.items ref = before.heap.items ref)
    (log : after.changeEntries = before.changeEntries) : Changed verbosity [] before after where
  items := items
  logged _ := by simpa using log

theorem trans {first second : List (ArrayRef × ItemChange)}
    (begun : Changed verbosity first before after) (ended : Changed verbosity second after last)
    (grows : Grows before after) : Changed verbosity (first ++ second) before last where
  items ref isThere := by
    rw [replay_append, ended.items ref (grows.hasArray isThere), begun.items ref isThere]
  logged wanted := by
    rw [ended.logged wanted, begun.logged wanted, List.map_append, List.append_assoc]

theorem mono {less : Nat} {changes : List (ArrayRef × ItemChange)}
    (changed : Changed verbosity changes before after) (isLess : less ≤ verbosity) :
    Changed less changes before after where
  items := changed.items
  logged wanted := changed.logged (Nat.le_trans wanted isLess)

end Changed

theorem changed_change (settings : Settings) (ref : ArrayRef) (change : ItemChange) (m : Machine) :
    Changed settings.verbosity [(ref, change)] m (m.change settings ref change) where
  items other isThere := by
    rw [Machine.change, Heap.items_modify]
    by_cases same : ref = other
    · subst same
      rw [if_pos ⟨rfl, isThere⟩]
      simp [replay]
    · simp [replay, same]
  logged wanted := by
    simp [changeEntries, Machine.change, logged, change.level_entry, wanted, List.filter_append,
      change.isChange_entry]

theorem Step.changed {room : LowerSet ℕ} {settings : Settings} {m m' : Machine}
    (step : Step room settings m m') : ∃ changes, Changed settings.verbosity changes m m' := by
  cases step with
  | opens | binds | defines => exact ⟨[], .nothing (fun _ _ => rfl) rfl⟩
  | creates =>
    refine ⟨[], .nothing (fun ref isThere => ?_) rfl⟩
    -- the new array is none of those that were there
    rw [Heap.items_push, if_neg (Nat.ne_of_lt isThere)]
  | @changes ref change _ => exact ⟨[(ref, change)], changed_change settings ref change m⟩
  | passes _ sameHeap sameLog =>
    refine ⟨[], .nothing (fun ref _ => ?_) sameLog⟩
    rw [sameHeap]

theorem Steps.changed {room : LowerSet ℕ} {settings : Settings} {m m' : Machine}
    (steps : Steps room settings m m') : ∃ changes, Changed settings.verbosity changes m m' := by
  induction steps with
  | refl => exact ⟨[], .nothing (fun _ _ => rfl) rfl⟩
  | tail steps step ih =>
    obtain ⟨first, begun⟩ := ih
    obtain ⟨second, ended⟩ := step.changed
    exact ⟨first ++ second, begun.trans ended (Steps.grows steps)⟩

end YapLang
