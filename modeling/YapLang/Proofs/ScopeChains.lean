import YapLang.Proofs.ScopeFrames

/-!
# Chains of scopes

Where every scope was created after the one it lies inside, the way outward from a scope ends, and
it takes no more steps than there are scopes up to that one. So the chain that names are looked up
along is the whole way outward, and its length, the height of the scope, is one more than that of
the scope around it. A run adds scopes and leaves those that are there where they are, so heights
never change.
-/
namespace YapLang.Scopes

/-- Every scope was created after the one it lies inside. -/
def Ordered (scopes : Scopes) : Prop :=
  ∀ ref parent, scopes.parent? ref = some parent → parent.index < ref.index

/-- The way outward from a scope, up to a scope that lies inside no other. -/
inductive IsChain (scopes : Scopes) : ScopeRef → List ScopeRef → Prop where
  | outermost {ref} : scopes.parent? ref = none → IsChain scopes ref [ref]
  | inside {ref parent rest} :
      scopes.parent? ref = some parent → IsChain scopes parent rest →
      IsChain scopes ref (ref :: rest)

/-- The number of scopes on the way outward, the first one included. -/
def height (scopes : Scopes) (ref : ScopeRef) : Nat :=
  (scopes.chain ref).length

variable {scopes before after : Scopes} {ref parent : ScopeRef}

theorem created_of_parent? (found : scopes.parent? ref = some parent) :
    ref.index < scopes.all.size := by
  apply Nat.lt_of_not_le
  intro missing
  simp [parent?, Array.getElem?_eq_none missing] at found

theorem eq_next_iff : ref = scopes.next ↔ ref.index = scopes.all.size := by
  cases ref
  simp [next]

/-! ### The way outward -/

theorem isChain_chainFrom (ordered : scopes.Ordered) {fuel : Nat} (enough : ref.index < fuel) :
    IsChain scopes ref (scopes.chainFrom fuel ref) := by
  induction fuel generalizing ref with
  | zero => exact absurd enough (Nat.not_lt_zero _)
  | succ fuel ih =>
    rw [chainFrom]
    cases found : scopes.parent? ref with
    | none => exact .outermost found
    | some parent =>
      -- the scope around is an earlier one, so the fuel that is left is enough for it
      have earlier := ordered ref parent found
      exact .inside found (ih (by omega))

theorem isChain_chain (ordered : scopes.Ordered) (ref : ScopeRef) :
    IsChain scopes ref (scopes.chain ref) :=
  isChain_chainFrom ordered (Nat.lt_succ_self _)

theorem IsChain.unique {way other : List ScopeRef} (first : IsChain scopes ref way)
    (second : IsChain scopes ref other) : way = other := by
  induction first generalizing other with
  | outermost isOutermost =>
    cases second with
    | outermost => rfl
    | inside found => simp [isOutermost] at found
  | inside found _ ih =>
    cases second with
    | outermost isOutermost => simp [isOutermost] at found
    | inside alsoFound rest =>
      obtain rfl : _ = _ := Option.some.inj (found.symm.trans alsoFound)
      rw [ih rest]

theorem IsChain.index_le (ordered : scopes.Ordered) {way : List ScopeRef}
    (isChain : IsChain scopes ref way) : ∀ outer ∈ way, outer.index ≤ ref.index := by
  induction isChain with
  | outermost => simp
  | inside found _ ih =>
    intro outer member
    rcases List.mem_cons.1 member with rfl | member
    · exact Nat.le_refl _
    · exact Nat.le_trans (ih outer member) (Nat.le_of_lt (ordered _ _ found))

theorem height_of_isChain (ordered : scopes.Ordered) {way : List ScopeRef}
    (isChain : IsChain scopes ref way) : scopes.height ref = way.length := by
  rw [height, (isChain_chain ordered ref).unique isChain]

theorem height_of_outermost (ordered : scopes.Ordered) (isOutermost : scopes.parent? ref = none) :
    scopes.height ref = 1 :=
  height_of_isChain ordered (.outermost isOutermost)

theorem height_of_parent (ordered : scopes.Ordered) (found : scopes.parent? ref = some parent) :
    scopes.height ref = scopes.height parent + 1 :=
  height_of_isChain ordered (.inside found (isChain_chain ordered parent))

/-! ### What is kept -/

variable {allowed : ScopeRef → Text → Prop}

theorem IsChain.extend (extended : Extends allowed before after) (ordered : before.Ordered)
    {way : List ScopeRef} (isChain : IsChain before ref way)
    (created : ref.index < before.all.size) : IsChain after ref way := by
  induction isChain with
  | outermost isOutermost =>
    apply IsChain.outermost
    rw [extended.parents _ created, isOutermost]
  | inside found _ ih =>
    have earlier := ordered _ _ found
    refine .inside ?_ (ih (by omega))
    rw [extended.parents _ created, found]

/-- A scope stays where it is. -/
theorem height_of_extends (extended : Extends allowed before after) (ordered : before.Ordered)
    (stillOrdered : after.Ordered) (created : ref.index < before.all.size) :
    after.height ref = before.height ref :=
  height_of_isChain stillOrdered ((isChain_chain ordered ref).extend extended ordered created)

theorem Extends.trans {last : Scopes} (first : Extends allowed before after)
    (second : Extends allowed after last) : Extends allowed before last := by
  have created {ref : ScopeRef} (existed : ref.index < before.all.size) :
      ref.index < after.all.size := Nat.lt_of_lt_of_le existed first.grown
  constructor
  · exact Nat.le_trans first.grown second.grown
  · intro ref existed
    rw [second.parents ref (created existed), first.parents ref existed]
  · intro ref existed x bound
    exact second.kept ref (created existed) x (first.kept ref existed x bound)
  · intro ref existed x fixed
    rw [second.names ref (created existed) x fixed, first.names ref existed x fixed]

/-! ### What a declaration and a new scope keep -/

theorem Ordered.declare (ordered : scopes.Ordered) (name : Text) (value : Value)
    (target : ScopeRef) : (scopes.declare name value target).Ordered := by
  intro ref parent found
  rw [parent?_declare] at found
  exact ordered ref parent found

theorem Ordered.child (ordered : scopes.Ordered) (created : parent.index < scopes.all.size) :
    (scopes.child parent).Ordered := by
  intro ref outer found
  have isThere := created_of_parent? found
  simp only [Scopes.child, Array.size_push] at isThere
  by_cases isNew : ref = scopes.next
  · subst isNew
    rw [parent?_child_next] at found
    cases found
    exact created
  · have isOld := mt eq_next_iff.2 isNew
    rw [parent?_child scopes ref parent (by omega)] at found
    exact ordered ref outer found

theorem parent?_child_of_ne (isOld : ref ≠ scopes.next) :
    (scopes.child parent).parent? ref = scopes.parent? ref := by
  simp [parent?, child, Array.getElem?_push, mt eq_next_iff.2 isOld]

theorem own?_child_of_ne {x : Text} (isOld : ref ≠ scopes.next) :
    (scopes.child parent).own? x ref = scopes.own? x ref := by
  simp [own?, bindings, child, Array.getElem?_push, mt eq_next_iff.2 isOld]

theorem mem_of_own?_single {bindings : Bindings} {name : Text} {value : Value}
    (bound : (single bindings).own? name ref = some value) : (name, value) ∈ bindings := by
  obtain ⟨index⟩ := ref
  cases index with
  | zero => exact Bindings.mem_of_get? bound
  | succ index => simp [single, own?, Scopes.bindings, Bindings.get?] at bound

theorem ordered_single (bindings : Bindings) : (single bindings).Ordered := by
  intro ref parent found
  obtain ⟨index⟩ := ref
  cases index <;> simp [single, parent?] at found

end YapLang.Scopes
