import YapLang.Proofs.PairedRuns
import YapLang.Proofs.ReachableStates

/-!
# A loop with a test alone is the same in both forms

A `for` loop opens a scope for its variables. Without any, the scope stays empty: every lookup goes
past it, no declaration is made in it, and no function is declared in it. So a run with the empty
scope and a run without it go alike. The scopes that both of them create have other places in the
one than in the other, and of what is on the heap, functions refer to these places.
-/
namespace YapLang

namespace ScopeRef

/-- The place of a scope where one more scope has come in at a place. -/
def past (extra ref : ScopeRef) : ScopeRef :=
  if ref.index < extra.index then ref else ⟨ref.index + 1⟩

variable {extra ref other : ScopeRef}

theorem past_of_lt (before : ref.index < extra.index) : extra.past ref = ref :=
  if_pos before

theorem index_past (extra ref : ScopeRef) :
    (extra.past ref).index = if ref.index < extra.index then ref.index else ref.index + 1 := by
  unfold past
  split <;> rfl

theorem past_injective (extra : ScopeRef) : Function.Injective extra.past := by
  rintro ⟨i⟩ ⟨j⟩ same
  have index := congrArg ScopeRef.index same
  simp only [index_past] at index
  congr 1
  split at index <;> split at index <;> omega

@[simp] theorem past_inj : extra.past ref = extra.past other ↔ ref = other :=
  (past_injective extra).eq_iff

@[simp] theorem past_ne : extra.past ref ≠ extra := by
  intro same
  have index := congrArg ScopeRef.index same
  rw [index_past] at index
  split at index <;> omega

theorem exists_past (different : ref ≠ extra) : ∃ origin, extra.past origin = ref := by
  by_cases before : ref.index < extra.index
  · exact ⟨ref, past_of_lt before⟩
  · obtain ⟨i⟩ := ref
    obtain ⟨j⟩ := extra
    simp only [ne_eq, mk.injEq] at different before
    refine ⟨⟨i - 1⟩, ?_⟩
    rw [past, if_neg (by dsimp only; omega), mk.injEq]
    dsimp only
    omega

end ScopeRef

namespace Scopes

/-- The second scopes are the first ones with one more, which is empty. Some of the scopes that lie
inside the one around it may lie inside the additional one, if they are younger. -/
structure Padded (extra around : ScopeRef) (first second : Scopes) : Prop where
  ordered : first.Ordered
  inside : around.index < extra.index
  created : extra.index ≤ first.all.size
  size : second.all.size = first.all.size + 1
  bindings : ∀ ref, second.bindings (extra.past ref) = first.bindings ref
  empty : second.bindings extra = []
  outward : second.parent? extra = some around
  parents : ∀ ref, second.parent? (extra.past ref) = (first.parent? ref).map extra.past ∨
    extra.index ≤ ref.index ∧ first.parent? ref = some around ∧
      second.parent? (extra.past ref) = some extra

/-- From the second scope, the same names are seen as from the first one. -/
def Shows (extra around a b : ScopeRef) : Prop :=
  b = extra.past a ∨ a = around ∧ b = extra

theorem bindings_child (scopes : Scopes) (parent ref : ScopeRef) :
    (scopes.child parent).bindings ref = scopes.bindings ref := by
  by_cases isNew : ref.index = scopes.all.size
  · simp [bindings, child, isNew]
  · simp [bindings, child, Array.getElem?_push, isNew]

namespace Padded

variable {extra around a b : ScopeRef} {first second : Scopes}

section

variable (padded : Padded extra around first second)
include padded

theorem past_around : extra.past around = around :=
  ScopeRef.past_of_lt padded.inside

theorem past_next : extra.past first.next = second.next := by
  have isLater : ¬first.next.index < extra.index := Nat.not_lt.2 padded.created
  rw [ScopeRef.past, if_neg isLater, next, next, padded.size]

/-- A scope is there exactly if the one that corresponds to it is. -/
theorem past_lt_iff (ref : ScopeRef) :
    (extra.past ref).index < second.all.size ↔ ref.index < first.all.size := by
  have created := padded.created
  rw [ScopeRef.index_past, padded.size]
  split <;> omega

theorem own? (name : Text) (ref : ScopeRef) :
    second.own? name (extra.past ref) = first.own? name ref := by
  rw [Scopes.own?, padded.bindings, Scopes.own?]

/-- The additional scope still lies inside an older one, and others inside it are younger. -/
theorem stillOrdered : second.Ordered := by
  intro ref parent found
  by_cases isExtra : ref = extra
  · rw [isExtra, padded.outward] at found
    cases found
    rw [isExtra]
    exact padded.inside
  -- every other scope has its counterpart, whose parent is known
  obtain ⟨origin, rfl⟩ := ScopeRef.exists_past isExtra
  rcases padded.parents origin with same | ⟨younger, -, through⟩
  · rw [same] at found
    obtain ⟨outer, isOuter, rfl⟩ := Option.map_eq_some_iff.1 found
    have older := padded.ordered origin outer isOuter
    rw [ScopeRef.index_past, ScopeRef.index_past]
    split <;> split <;> omega
  · rw [through] at found
    cases found
    rw [ScopeRef.index_past]
    split <;> omega

/-! ### Lookup -/

/-- The way outward is the same, apart from the additional scope. By induction on the way. -/
theorem exists_way {ref : ScopeRef} {way : List ScopeRef} (isChain : first.IsChain ref way) :
    ∃ longer, second.IsChain (extra.past ref) longer ∧
      longer.filter (· ≠ extra) = way.map extra.past := by
  induction isChain with
  | @outermost ref isOutermost =>
    rcases padded.parents ref with same | ⟨-, inside, -⟩
    · rw [isOutermost] at same
      exact ⟨[extra.past ref], .outermost same, by simp⟩
    · rw [isOutermost] at inside
      cases inside
  | @inside ref parent rest found _ ih =>
    obtain ⟨longer, isChain, shorter⟩ := ih
    rcases padded.parents ref with same | ⟨-, isAround, through⟩
    · rw [found] at same
      exact ⟨extra.past ref :: longer, .inside same isChain, by simpa using shorter⟩
    -- here the way leads through the additional scope
    · obtain rfl : parent = around := Option.some.inj (found.symm.trans isAround)
      rw [padded.past_around] at isChain
      exact ⟨extra.past ref :: extra :: longer, .inside through (.inside padded.outward isChain),
        by simpa using shorter⟩

theorem chain (shows : Shows extra around a b) :
    (second.chain b).filter (· ≠ extra) = (first.chain a).map extra.past := by
  obtain ⟨longer, isChain, shorter⟩ := padded.exists_way (isChain_chain padded.ordered a)
  rcases shows with rfl | ⟨rfl, rfl⟩
  · rw [(isChain_chain padded.stillOrdered _).unique isChain, shorter]
  · rw [padded.past_around] at isChain
    have further := IsChain.inside padded.outward isChain
    rw [(isChain_chain padded.stillOrdered _).unique further]
    simpa using shorter

theorem resolve? (shows : Shows extra around a b) (name : Text) :
    second.resolve? name b = (first.resolve? name a).map extra.past := by
  -- the additional scope binds nothing, so to leave it out changes no lookup
  have skipped (owner : ScopeRef) :
      decide (decide (owner ≠ extra) = true ∧ (second.own? name owner).isSome = true) =
        (second.own? name owner).isSome := by
    by_cases isExtra : owner = extra
    · simp [isExtra, Scopes.own?, padded.empty, Bindings.get?]
    · simp [isExtra]
  have same : (fun owner => (second.own? name owner).isSome) ∘ extra.past =
      fun owner => (first.own? name owner).isSome := by
    funext owner
    simp [padded.own?]
  calc second.resolve? name b
      = ((second.chain b).filter (· ≠ extra)).find? fun owner =>
          (second.own? name owner).isSome := by
        rw [List.find?_filter]
        simp only [skipped, Scopes.resolve?]
    _ = (first.resolve? name a).map extra.past := by
        rw [padded.chain shows, List.find?_map, same, Scopes.resolve?]

theorem get? (shows : Shows extra around a b) (name : Text) :
    second.get? name b = first.get? name a := by
  rw [Scopes.get?, Scopes.get?, padded.resolve? shows]
  cases first.resolve? name a with
  | none => rfl
  | some owner => exact padded.own? name owner

/-! ### Declarations and new scopes -/

theorem declare (name : Text) (value : Value) (target : ScopeRef) :
    Padded extra around (first.declare name value target)
      (second.declare name value (extra.past target)) := by
  by_cases isThere : target.index < first.all.size
  · have isThere' := (padded.past_lt_iff target).2 isThere
    constructor
    · exact padded.ordered.declare name value target
    · exact padded.inside
    · simpa [Scopes.declare] using padded.created
    · simpa [Scopes.declare] using padded.size
    · intro ref
      rw [bindings_declare _ _ _ _ _ isThere', bindings_declare _ _ _ _ _ isThere, padded.bindings]
      simp only [ScopeRef.past_inj]
    · rw [bindings_declare _ _ _ _ _ isThere', if_neg ScopeRef.past_ne, padded.empty]
    · rw [parent?_declare, padded.outward]
    · intro ref
      rw [parent?_declare, parent?_declare]
      exact padded.parents ref
  · rw [declare_of_not_created isThere,
      declare_of_not_created (mt (padded.past_lt_iff target).1 isThere)]
    exact padded

theorem child (shows : Shows extra around a b) (isThere : a.index < first.all.size) :
    Padded extra around (first.child a) (second.child b) := by
  -- the additional scope was there before the new one
  have old : extra ≠ second.next := by
    intro same
    have index := congrArg ScopeRef.index same
    have created := padded.created
    simp only [next, padded.size] at index
    omega
  constructor
  · exact padded.ordered.child isThere
  · exact padded.inside
  · simpa [Scopes.child] using Nat.le_succ_of_le padded.created
  · simpa [Scopes.child] using padded.size
  · intro ref
    rw [bindings_child, bindings_child, padded.bindings]
  · rw [bindings_child, padded.empty]
  · rw [parent?_child_of_ne old, padded.outward]
  · intro ref
    by_cases isNew : ref = first.next
    -- the new scope lies inside the counterpart, or inside the additional scope
    · rw [isNew, parent?_child_next, padded.past_next, parent?_child_next]
      rcases shows with rfl | ⟨rfl, rfl⟩
      · exact .inl rfl
      · exact .inr ⟨padded.created, rfl, rfl⟩
    · have isOld : extra.past ref ≠ second.next := by
        rw [← padded.past_next]
        exact fun same => isNew (ScopeRef.past_injective extra same)
      rw [parent?_child_of_ne isNew, parent?_child_of_ne isOld]
      exact padded.parents ref

end

/-- A scope that was just created is an additional one. -/
theorem of_child {scopes : Scopes} (ordered : scopes.Ordered) {around : ScopeRef}
    (isThere : around.index < scopes.all.size) :
    Padded scopes.next around scopes (scopes.child around) := by
  have old {ref : ScopeRef} (before : ref.index < scopes.next.index) :=
    ScopeRef.past_of_lt before
  -- there are no scopes yet that would have to move
  have young {ref : ScopeRef} (after : ¬ref.index < scopes.next.index) :
      scopes.all[ref.index]? = none ∧
        (scopes.child around).all[(scopes.next.past ref).index]? = none := by
    rw [ScopeRef.index_past, if_neg after]
    simp only [next, Scopes.child] at after ⊢
    exact ⟨Array.getElem?_eq_none (by omega), Array.getElem?_eq_none (by simp; omega)⟩
  constructor
  · exact ordered
  · exact isThere
  · exact Nat.le_refl _
  · simp [Scopes.child]
  · intro ref
    by_cases before : ref.index < scopes.next.index
    · rw [old before, bindings_child]
    · obtain ⟨none, none'⟩ := young before
      rw [Scopes.bindings, Scopes.bindings, none, none']
  · rw [bindings_child]
    simp [Scopes.bindings, next]
  · exact parent?_child_next scopes around
  · intro ref
    left
    by_cases before : ref.index < scopes.next.index
    · rw [old before, parent?_child _ _ _ before]
      cases found : scopes.parent? ref with
      | none => rfl
      | some parent =>
        have older := ordered ref parent found
        rw [Option.map_some, old (by omega)]
    · obtain ⟨none, none'⟩ := young before
      rw [parent?, parent?, none, none']
      rfl

end Padded

end Scopes

namespace Machine

/-- The second machine is the first one with one more scope, which is empty. -/
structure Padded (extra around : ScopeRef) (m n : Machine) : Prop where
  scopes : m.scopes.Padded extra around n.scopes
  arrays : n.heap.arrays = m.heap.arrays
  closures : n.heap.closures = m.heap.closures.map fun closure =>
    { closure with scope := extra.past closure.scope }
  captured : ∀ closure ∈ m.heap.closures, m.HasScope closure.scope
  stamps : n.stamps = m.stamps
  draws : n.draws = m.draws
  output : n.output = m.output
  log : n.log = m.log

namespace Padded

variable {extra around : ScopeRef} {m n : Machine} (padded : m.Padded extra around n)
include padded

/-- A change to the scopes alone. -/
theorem rescope {first second : Scopes} (scopes : first.Padded extra around second)
    (grown : m.scopes.all.size ≤ first.all.size) :
    ({ m with scopes := first } : Machine).Padded extra around { n with scopes := second } :=
  { padded with
    scopes
    captured := fun closure member => Nat.lt_of_lt_of_le (padded.captured closure member) grown }

theorem declare (name : Text) (value : Value) (target : ScopeRef) :
    ({ m with scopes := m.scopes.declare name value target } : Machine).Padded extra around
      { n with scopes := n.scopes.declare name value (extra.past target) } :=
  padded.rescope (padded.scopes.declare name value target) (by simp [Scopes.declare])

theorem redraw (draws : Nat → Float) :
    ({ m with draws } : Machine).Padded extra around { n with draws } :=
  { padded with draws := rfl }

theorem unscoped : m.heap.unscoped = n.heap.unscoped := by
  simp only [Heap.unscoped, padded.arrays, padded.closures, Array.map_map]
  rfl

end Padded

/-- A scope that was just created is an additional one, and no function has to be changed. -/
theorem WellFormed.padded {m : Machine} (wellFormed : m.WellFormed) {around : ScopeRef}
    (isThere : m.HasScope around) :
    m.Padded m.scopes.next around { m with scopes := m.scopes.child around } where
  scopes := .of_child wellFormed.ordered isThere
  arrays := rfl
  closures := by
    -- functions were declared in scopes that do not move
    have same : ∀ closure ∈ m.heap.closures,
        { closure with scope := m.scopes.next.past closure.scope } = closure := by
      intro closure member
      have fixed : m.scopes.next.past closure.scope = closure.scope :=
        ScopeRef.past_of_lt (wellFormed.captured closure member)
      rw [fixed]
    rw [Array.map_congr_left same, Array.map_id']
  captured := wellFormed.captured
  stamps := rfl
  draws := rfl
  output := rfl
  log := rfl

end Machine

namespace Run

/-- No operation of the machine can tell whether the additional scope is there. The stage is a
number of scopes that the side without it has: those scopes have a place on the other side. -/
theorem correspondence_padded (extra around : ScopeRef) (settings : Settings) :
    Correspondence (fun k m n => m.Padded extra around n ∧ k ≤ m.scopes.all.size)
      (fun k a b => a.index < k ∧ Scopes.Shows extra around a b)
      (fun k a b => a.index < k ∧ b = extra.past a) (fun _ => True) settings settings where
  patience := rfl
  earlier := fun earlier _ _ related => ⟨related.1, earlier.trans related.2⟩
  looksOfBinds := fun bound => ⟨bound.1, .inl bound.2⟩
  heap := fun related => related.1.unscoped
  closures := by
    rintro k m n ⟨padded, reached⟩
    refine ⟨m.scopes.all.size, reached, ⟨padded, Nat.le_refl _⟩, ?_⟩
    intro index closure other first second
    rw [padded.closures, Array.getElem?_map, first] at second
    cases second
    refine ⟨⟨fun _ _ => trivial, fun _ _ => trivial⟩, ?_, rfl⟩
    exact padded.captured closure (Array.mem_of_getElem? first)
  readName := by
    rintro k a b ⟨-, shows⟩ name -
    apply Paired.get
    rintro m n ⟨padded, -⟩
    rw [padded.scopes.get? shows]
    cases m.scopes.get? name a with
    | none => exact .fail _
    | some value => exact .pure value
  assignName := by
    rintro k a b ⟨-, shows⟩ name - value
    apply Paired.get
    rintro m n ⟨padded, -⟩
    rw [padded.scopes.resolve? shows]
    cases m.scopes.resolve? name a with
    | none => exact .fail _
    | some owner =>
      refine (Paired.changing ?_).bind fun _ => .pure value
      rintro m n ⟨padded, reached⟩
      exact ⟨padded.declare name value owner, by simpa [Scopes.declare] using reached⟩
  declareName := by
    rintro k a _ ⟨-, rfl⟩ name - value
    apply Paired.changing
    rintro m n ⟨padded, reached⟩
    exact ⟨padded.declare name value a, by simpa [Scopes.declare] using reached⟩
  openScope := by
    rintro k a b ⟨isThere, shows⟩ m n ⟨padded, reached⟩
    have child := padded.scopes.child shows (Nat.lt_of_lt_of_le isThere reached)
    have grown : m.scopes.all.size ≤ (m.scopes.child a).all.size := by simp [Scopes.child]
    refine ⟨m.scopes.all.size + 1, Nat.le_succ_of_le reached, ?_, padded.rescope child grown, ?_⟩
    · exact ⟨Nat.lt_succ_self _, padded.scopes.past_next.symm⟩
    · simp [Scopes.child]
  newArray := by
    intro k items
    apply Paired.modifyGet
    rintro m n ⟨padded, reached⟩
    have arrays := padded.arrays
    exact ⟨by rw [arrays], { padded with arrays := by simp only [arrays] }, reached⟩
  changeItems := by
    intro k ref f
    apply Paired.changing
    rintro m n ⟨padded, reached⟩
    have arrays := padded.arrays
    exact ⟨{ padded with arrays := by simp only [arrays] }, reached⟩
  newClosure := by
    rintro k closure _ ⟨isThere, rfl⟩ -
    apply Paired.modifyGet
    rintro m n ⟨padded, reached⟩
    have closures := padded.closures
    refine ⟨by simp [closures], { padded with closures := ?_, captured := ?_ }, reached⟩
    · simp [closures]
    · intro stored member
      rcases Array.mem_push.1 member with old | rfl
      · exact padded.captured stored old
      · exact Nat.lt_of_lt_of_le isThere reached
  newMethod := by
    intro k name ref
    apply Paired.modifyGet
    rintro m n ⟨padded, reached⟩
    have stamps := padded.stamps
    exact ⟨by rw [stamps], { padded with stamps := by simp only [stamps] }, reached⟩
  write := by
    intro k text
    apply Paired.write rfl
    rintro m n ⟨padded, reached⟩
    have output := padded.output
    exact ⟨{ padded with output := by simp only [output] }, reached⟩
  drawNumber := by
    intro k
    apply Paired.modifyGet
    rintro ⟨_, _, _, draws, _, _⟩ ⟨_, _, _, _, _, _⟩ ⟨padded, reached⟩
    obtain rfl : draws = _ := padded.draws.symm
    exact ⟨rfl, padded.redraw _, reached⟩
  note := by
    intro k level message blind
    unfold note
    split
    · apply Paired.changing
      rintro m n ⟨padded, reached⟩
      have log := padded.log
      -- messages show no scopes
      have text : message n.heap = message m.heap := by
        rw [← blind n.heap, ← padded.unscoped, blind]
      exact ⟨{ padded with log := by simp only [log, text] }, reached⟩
    · exact .pure _

end Run

namespace Machine

/-- The second machine is the first one under a renaming of the scopes that were created since, but
for one scope that the second machine may have in addition: it is empty, and a chain that leads
through it is the same without it. -/
structure RenamedSince (before : Machine) (rename : ScopeRef → ScopeRef) (extra : ScopeRef)
    (m n : Machine) : Prop where
  injective : Function.Injective rename
  fixed : ∀ ref, before.HasScope ref → rename ref = ref
  created : ∀ ref, m.HasScope ref → n.HasScope (rename ref) ∧ rename ref ≠ extra
  onto : ∀ ref, n.HasScope ref → ref ≠ extra → ∃ origin, m.HasScope origin ∧ rename origin = ref
  bindings : ∀ ref, m.HasScope ref → n.scopes.bindings (rename ref) = m.scopes.bindings ref
  empty : n.scopes.bindings extra = []
  parents : ∀ ref, before.HasScope ref → n.scopes.parent? ref = m.scopes.parent? ref
  chains : ∀ ref, m.HasScope ref →
    (n.scopes.chain (rename ref)).filter (· ≠ extra) = (m.scopes.chain ref).map rename
  arrays : n.heap.arrays = m.heap.arrays
  closures : n.heap.closures = m.heap.closures.map fun closure =>
    { closure with scope := rename closure.scope }
  stamps : n.stamps = m.stamps
  draws : n.draws = m.draws
  output : n.output = m.output
  log : n.log = m.log

theorem Padded.renamedSince {before m n : Machine} {around : ScopeRef}
    (padded : m.Padded before.scopes.next around n) :
    before.RenamedSince before.scopes.next.past before.scopes.next m n where
  injective := ScopeRef.past_injective _
  fixed _ isOld := ScopeRef.past_of_lt isOld
  created ref isThere := ⟨(padded.scopes.past_lt_iff ref).2 isThere, ScopeRef.past_ne⟩
  onto := by
    intro ref isThere different
    obtain ⟨origin, rfl⟩ := ScopeRef.exists_past different
    exact ⟨origin, (padded.scopes.past_lt_iff origin).1 isThere, rfl⟩
  bindings ref _ := padded.scopes.bindings ref
  empty := padded.scopes.empty
  parents := by
    intro ref isOld
    -- a scope that was there before lies inside one that was
    have fixed : before.scopes.next.past ref = ref := ScopeRef.past_of_lt isOld
    have moved := padded.scopes.parents ref
    rw [fixed] at moved
    rcases moved with same | ⟨isYoung, -, -⟩
    · rw [same]
      cases found : m.scopes.parent? ref with
      | none => rfl
      | some parent =>
        have older := padded.scopes.ordered ref parent found
        exact congrArg some (ScopeRef.past_of_lt (Nat.lt_trans older isOld))
    · exact absurd isOld (Nat.not_lt.2 isYoung)
  chains ref _ := padded.scopes.chain (.inl rfl)
  arrays := padded.arrays
  closures := padded.closures
  stamps := padded.stamps
  draws := padded.draws
  output := padded.output
  log := padded.log

/-- Nothing has been created since, and no scope is renamed. -/
theorem RenamedSince.refl {m : Machine} (wellFormed : m.WellFormed) :
    m.RenamedSince id m.scopes.next m m where
  injective := Function.injective_id
  fixed _ _ := rfl
  created := by
    intro ref isThere
    refine ⟨isThere, ?_⟩
    rintro rfl
    exact Nat.lt_irrefl _ isThere
  onto ref isThere _ := ⟨ref, isThere, rfl⟩
  bindings _ _ := rfl
  empty := by simp [Scopes.bindings, Scopes.next]
  parents _ _ := rfl
  chains := by
    intro ref isThere
    rw [List.map_id]
    apply List.filter_eq_self.2
    intro outer member
    -- the scopes around one are older, so the next one is not among them
    have isOlder := (Scopes.isChain_chain wellFormed.ordered ref).index_le wellFormed.ordered
    apply decide_eq_true
    rintro rfl
    exact Nat.not_lt.2 (isOlder _ member) isThere
  arrays := rfl
  closures := by simp
  stamps := rfl
  draws := rfl
  output := rfl
  log := rfl

end Machine

namespace Run

/-- A `while` loop and a `for` loop with the same test and body, and with nothing else, do the same
in every state that can be reached, in whatever scope: they give the same signal, with the same
value if it is a return, or halt for the same reason, be it a fault or a loop that does not end. The
states that they end in differ by the places of the scopes created in the meantime and by one empty
scope; in particular, all scopes that were there before have the same contents, and so have all
arrays, and the output is the same. -/
theorem while_loop_agrees_with_for_loop (settings : Settings) (depth : Nat) {m : Machine}
    (reached : m.Reached) {scope : ScopeRef} (isThere : m.HasScope scope) (test : Node)
    (body : List Node) :
    ∃ rename extra, ¬m.HasScope extra ∧
      SameEnd (m.RenamedSince rename extra)
        (execute settings depth scope (.whileLoop test body) m)
        (execute settings depth scope (.forLoop none (some test) none body) m) := by
  have wellFormed := reached.wellFormed
  have isNew : ¬m.HasScope m.scopes.next := Nat.lt_irrefl _
  cases depth with
  | zero =>
    refine ⟨id, m.scopes.next, isNew, ?_⟩
    rw [execute, execute]
    exact .halt (.refl wellFormed)
  | succ depth =>
    refine ⟨m.scopes.next.past, m.scopes.next, isNew, ?_⟩
    have alike := correspondence_padded m.scopes.next scope settings
    have padded := wellFormed.padded isThere
    -- the test is evaluated, and the body is run, inside the scope and inside the empty one
    have reads : scope.index < m.scopes.all.size ∧
        Scopes.Shows m.scopes.next scope scope m.scopes.next := ⟨isThere, .inr ⟨rfl, rfl⟩⟩
    have inner := inStep alike depth
    have tests := inner.optional reads (some test) Value.isTruthy true fun _ _ => trivial
    have seen : ∀ name ∈ Tree.namesOfAll body, True := fun _ _ => trivial
    have rounds := loop_paired alike inner reads tests seen (.pure ()) m _
      ⟨padded, Nat.le_refl _⟩
    simp only [execute]
    exact rounds.mono fun _ _ related => related.1.renamedSince

open Machine

/-- A loop that stores a function from inside its body: the scope which that function was declared
in is the second one or, behind the empty scope, the third. -/
theorem while_loop_agrees_with_for_loop_closure :
    let setup : List Node :=
      [ .declaration "more" (some (.identifier "true")),
        .declaration "stored" (some (.array [])) ]
    let body : List Node :=
      [ .declaration "x" (some (.identifier "more")),
        .function "f" [] [.returning (some (.identifier "x"))],
        .statement (.call (.property (.identifier "stored") "push") [.identifier "f"]),
        .statement (.assignment "more" (.identifier "false")) ]
    let m :=
      (Operation.run 10 globalScope setup).perform ⟨0, 10, .memory⟩ (start builtins fun _ => 0)
    let whileLoop := execute ⟨0, 10, .memory⟩ 10 globalScope (.whileLoop (.identifier "more") body)
    let forLoop :=
      execute ⟨0, 10, .memory⟩ 10 globalScope (.forLoop none (some (.identifier "more")) none body)
    m.Reached ∧ m.HasScope globalScope ∧
      (final whileLoop m).heap.closures.toList.map Closure.scope = [⟨1⟩] ∧
      (final forLoop m).heap.closures.toList.map Closure.scope = [⟨2⟩] ∧
      ∃ rename extra, ¬m.HasScope extra ∧
        SameEnd (m.RenamedSince rename extra) (whileLoop m) (forLoop m) := by
  intro setup body m whileLoop forLoop
  have possible : (Operation.run 10 globalScope setup).Possible (start builtins fun _ => 0) := by
    show 0 < 1
    decide
  have reached : m.Reached := .next .fresh ⟨⟨0, 10, .memory⟩, _, Nat.le_refl 0, possible, rfl⟩
  have isThere : m.HasScope globalScope := by
    unfold HasScope
    decide +kernel
  refine ⟨reached, isThere, by decide +kernel, by decide +kernel, ?_⟩
  exact
    while_loop_agrees_with_for_loop ⟨0, 10, .memory⟩ 10 reached isThere (.identifier "more") body

end Run

end YapLang
