import Mathlib.Data.Finset.Card
import YapLang.Proofs.ArrayContents

/-!
# Arrays that contain themselves

An array that contains itself has no content, but it has an unfolding: the finite tree of its items,
and of theirs, in which an array is cut off where it comes up inside itself. The text of a value is
the plain recursive rendering of its unfolding, for all three ways of rendering. They stop because
every array that is entered is one that the occurrence was not yet inside of, and there are finitely
many of these.

Nothing is cut off but arrays inside themselves: one that occurs at several places is unfolded at
each of them, and where there is no cycle, the text is that of a rendering that knows of none.
-/
namespace YapLang

open Relation (TransGen)

/-- A value with its items, up to where an array comes up inside itself. -/
inductive Unfolding where
  /-- A value that is not an array. -/
  | leaf (value : Value)
  /-- An array inside itself. -/
  | cut
  | array (items : List Unfolding)

namespace Value

variable (heap : Heap)

mutual

/-- The value unfolds to the tree where it stands inside the given arrays. An array is cut off if
and only if it is one of them. -/
inductive Unfolds : (inside : List ArrayRef) → Value → Unfolding → Prop where
  | leaf {inside value} : (∀ ref, value ≠ .array ref) → Unfolds inside value (.leaf value)
  | cut {inside ref} : ref ∈ inside → Unfolds inside (.array ref) .cut
  | array {inside ref items} :
      ref ∉ inside → UnfoldEach (ref :: inside) (heap.items ref).toList items →
      Unfolds inside (.array ref) (.array items)

/-- The values unfold to the trees, one by one. -/
inductive UnfoldEach : (inside : List ArrayRef) → List Value → List Unfolding → Prop where
  | nil {inside} : UnfoldEach inside [] []
  | cons {inside value values tree trees} :
      Unfolds inside value tree → UnfoldEach inside values trees →
      UnfoldEach inside (value :: values) (tree :: trees)

end

end Value

namespace Rendering

mutual

/-- The plain recursive rendering of an unfolding. -/
def unfoldingText (style : Rendering) (heap : Heap) : Unfolding → Text
  | .leaf value => style.item heap value
  | .cut => style.cut
  | .array items => style.array (unfoldingTexts style heap items)

def unfoldingTexts (style : Rendering) (heap : Heap) : List Unfolding → List Text
  | [] => []
  | tree :: trees => unfoldingText style heap tree :: unfoldingTexts style heap trees

end

/-- The text of an unfolding that stands by itself. A value that is not an array is then shown by
its plain text, in whatever way it would be shown as an item. -/
def wholeText (style : Rendering) (heap : Heap) : Unfolding → Text
  | .leaf value => value.scalarText heap
  | tree => style.unfoldingText heap tree

variable (style : Rendering) (heap : Heap)

mutual

/-- The text of an item in a rendering that takes no notice of cycles: it does not come to an end,
so there is no text, for an array that contains itself. -/
inductive Renders : Value → Text → Prop where
  | item {value} : (∀ ref, value ≠ .array ref) → Renders value (style.item heap value)
  | array {ref texts} :
      RenderEach (heap.items ref).toList texts → Renders (.array ref) (style.array texts)

/-- The texts of items, one by one. -/
inductive RenderEach : List Value → List Text → Prop where
  | nil : RenderEach [] []
  | cons {value values text texts} :
      Renders value text → RenderEach values texts → RenderEach (value :: values) (text :: texts)

end

end Rendering

/-! ### There are finitely many arrays to enter -/

namespace Heap

/-- The number of arrays that are not among the given ones. -/
def outside (heap : Heap) (inside : List ArrayRef) : Nat :=
  ((Finset.range heap.arrays.size).filter fun index => ⟨index⟩ ∉ inside).card

variable {heap : Heap} {inside : List ArrayRef} {ref : ArrayRef}

theorem outside_lt_fuel (heap : Heap) (inside : List ArrayRef) :
    heap.outside inside < Value.renderFuel heap := by
  have bound := Finset.card_filter_le (Finset.range heap.arrays.size) fun index => ⟨index⟩ ∉ inside
  rw [Finset.card_range] at bound
  exact Nat.lt_succ_of_le bound

/-- An array that has an item is one of those that are left, until it is entered. -/
theorem outside_cons_lt (fresh : ref ∉ inside) {value : Value}
    (member : value ∈ (heap.items ref).toList) :
    heap.outside (ref :: inside) < heap.outside inside := by
  -- a reference to no array has no items
  have isThere : ref.index < heap.arrays.size := by
    by_contra missing
    simp [items, Array.getD_eq_getD_getElem?, Array.getElem?_eq_none (Nat.le_of_not_lt missing)]
      at member
  apply Finset.card_lt_card
  -- the array itself is what the smaller set lacks
  rw [Finset.ssubset_iff_of_subset]
  · refine ⟨ref.index, ?_, ?_⟩
    · simpa using ⟨isThere, fresh⟩
    · simp
  · intro index
    simp only [Finset.mem_filter, List.mem_cons, not_or]
    rintro ⟨isIn, -, notInside⟩
    exact ⟨isIn, notInside⟩

end Heap

/-! ### Every value has one unfolding -/

namespace Value

variable {heap : Heap}

theorem exists_unfoldEach {inside : List ArrayRef} {values : List Value}
    (each : ∀ value ∈ values, ∃ tree, Unfolds heap inside value tree) :
    ∃ trees, UnfoldEach heap inside values trees := by
  induction values with
  | nil => exact ⟨[], .nil⟩
  | cons value values ih =>
    obtain ⟨tree, first⟩ := each value List.mem_cons_self
    obtain ⟨trees, others⟩ := ih fun value member => each value (List.mem_cons_of_mem _ member)
    exact ⟨tree :: trees, .cons first others⟩

/-- By induction on the number of arrays that are left to enter. -/
theorem exists_unfolds (heap : Heap) (inside : List ArrayRef) (value : Value) :
    ∃ tree, Unfolds heap inside value tree := by
  induction left : heap.outside inside using Nat.strongRecOn generalizing inside value with
  | _ left ih =>
    subst left
    by_cases isArray : ∃ ref, value = .array ref
    · obtain ⟨ref, rfl⟩ := isArray
      by_cases entered : ref ∈ inside
      · exact ⟨.cut, .cut entered⟩
      · obtain ⟨items, each⟩ :=
          exists_unfoldEach fun item (member : item ∈ (heap.items ref).toList) =>
            ih _ (Heap.outside_cons_lt entered member) (ref :: inside) item rfl
        exact ⟨.array items, .array entered each⟩
    · exact ⟨.leaf value, .leaf fun ref same => isArray ⟨ref, same⟩⟩

mutual

theorem Unfolds.unique {heap : Heap} {inside : List ArrayRef} {value : Value}
    {tree other : Unfolding} :
    Unfolds heap inside value tree → Unfolds heap inside value other → tree = other
  | .leaf _, .leaf _ | .cut _, .cut _ => rfl
  | .array _ items, .array _ others => congrArg Unfolding.array (items.unique others)
  -- the three cases exclude each other
  | .leaf notArray, .cut _ | .leaf notArray, .array _ _
  | .cut _, .leaf notArray | .array _ _, .leaf notArray => absurd rfl (notArray _)
  | .cut entered, .array fresh _ | .array fresh _, .cut entered => absurd entered fresh

theorem UnfoldEach.unique {heap : Heap} {inside : List ArrayRef} {values : List Value}
    {trees others : List Unfolding} :
    UnfoldEach heap inside values trees → UnfoldEach heap inside values others → trees = others
  | .nil, .nil => rfl
  | .cons first rest, .cons first' rest' => by rw [first.unique first', rest.unique rest']

end

end Value

/-! ### The text of an unfolding -/

namespace Rendering

variable {heap : Heap}

theorem itemText_of_not_array (style : Rendering) (heap : Heap) (fuel : Nat)
    (inside : List ArrayRef) {value : Value} (notArray : ∀ ref, value ≠ .array ref) :
    style.itemText heap fuel inside value = style.item heap value := by
  cases value with
  | array ref => exact absurd rfl (notArray ref)
  | _ => cases fuel <;> rfl

mutual

/-- With fuel for the arrays that are left to enter, a value is rendered as its unfolding. -/
theorem itemText_of_unfolds (style : Rendering) {inside : List ArrayRef} {fuel : Nat}
    {value : Value} {tree : Unfolding} (enough : heap.outside inside < fuel) :
    value.Unfolds heap inside tree →
      style.itemText heap fuel inside value = style.unfoldingText heap tree
  | .leaf notArray => itemText_of_not_array style heap fuel inside notArray
  | .cut entered => by
    obtain ⟨fuel, rfl⟩ : ∃ less, fuel = less + 1 := ⟨fuel - 1, by omega⟩
    simp [itemText, unfoldingText, entered]
  | @Value.Unfolds.array _ _ ref _ fresh items => by
    obtain ⟨fuel, rfl⟩ : ∃ less, fuel = less + 1 := ⟨fuel - 1, by omega⟩
    have enough : ∀ item ∈ (heap.items ref).toList, heap.outside (ref :: inside) < fuel := by
      intro item member
      -- where there is an item to render, there is one array less to enter
      have fewer := Heap.outside_cons_lt fresh member
      omega
    simp [itemText, unfoldingText, fresh, itemTexts_of_unfoldEach style enough items]

theorem itemTexts_of_unfoldEach (style : Rendering) {inside : List ArrayRef} {fuel : Nat}
    {values : List Value} {trees : List Unfolding}
    (enough : ∀ value ∈ values, heap.outside inside < fuel) :
    Value.UnfoldEach heap inside values trees →
      values.map (style.itemText heap fuel inside) = style.unfoldingTexts heap trees
  | .nil => rfl
  | .cons first others => by
    rw [List.map_cons, unfoldingTexts,
      itemText_of_unfolds style (enough _ List.mem_cons_self) first,
      itemTexts_of_unfoldEach style
        (fun value member => enough value (List.mem_cons_of_mem _ member)) others]

end

/-- How much fuel there is does not matter, as long as it is enough. -/
theorem itemText_fuel (style : Rendering) {inside : List ArrayRef} {fuel more : Nat}
    (enough : heap.outside inside < fuel)
    (alsoEnough : heap.outside inside < more) (value : Value) :
    style.itemText heap fuel inside value = style.itemText heap more inside value := by
  obtain ⟨tree, unfolds⟩ := Value.exists_unfolds heap inside value
  rw [itemText_of_unfolds style enough unfolds, itemText_of_unfolds style alsoEnough unfolds]

theorem arrayText_of_unfolds (style : Rendering) {ref : ArrayRef} {tree : Unfolding}
    (unfolds : (Value.array ref).Unfolds heap [] tree) :
    style.arrayText heap ref = style.unfoldingText heap tree :=
  itemText_of_unfolds style (heap.outside_lt_fuel []) unfolds

/-! ### Without cycles -/

mutual

theorem Renders.unique {style : Rendering} {heap : Heap} {value : Value} {text other : Text} :
    style.Renders heap value text → style.Renders heap value other → text = other
  | .item _, .item _ => rfl
  | .array texts, .array others => congrArg style.array (texts.unique others)
  | .item notArray, .array _ | .array _, .item notArray => absurd rfl (notArray _)

theorem RenderEach.unique {style : Rendering} {heap : Heap} {values : List Value}
    {texts others : List Text} :
    style.RenderEach heap values texts → style.RenderEach heap values others → texts = others
  | .nil, .nil => rfl
  | .cons first rest, .cons first' rest' => by rw [first.unique first', rest.unique rest']

end

end Rendering

/-- No array that is the given one or inside it contains itself. -/
def Heap.NoCycle (heap : Heap) (top : ArrayRef) : Prop :=
  ∀ inner, heap.Within top inner → ¬TransGen heap.Contains inner inner

/-- The value, if it is an array, is the top one or inside it, and the arrays that it stands inside
of contain it. -/
def Heap.Below (heap : Heap) (top : ArrayRef) (inside : List ArrayRef) (value : Value) : Prop :=
  ∀ ref, value = .array ref →
    heap.Within top ref ∧ ∀ outer ∈ inside, TransGen heap.Contains outer ref

theorem Heap.below_top (heap : Heap) (top : ArrayRef) : heap.Below top [] (.array top) := by
  rintro ref ⟨⟩
  exact ⟨.refl, by simp⟩

theorem Heap.Below.item {heap : Heap} {top ref : ArrayRef} {inside : List ArrayRef} {item : Value}
    (below : heap.Below top inside (.array ref)) (member : item ∈ (heap.items ref).toList) :
    heap.Below top (ref :: inside) item := by
  rintro inner rfl
  obtain ⟨within, above⟩ := below ref rfl
  refine ⟨within.tail member, fun outer listed => ?_⟩
  rcases List.mem_cons.1 listed with rfl | listed
  · exact .single member
  · exact (above outer listed).tail member

namespace Rendering

variable {heap : Heap} {top : ArrayRef}

mutual

/-- Below an array without cycles nothing is cut off. -/
theorem renders_of_unfolds (style : Rendering) (noCycle : heap.NoCycle top)
    {inside : List ArrayRef} {value : Value} {tree : Unfolding}
    (below : heap.Below top inside value) :
    value.Unfolds heap inside tree → style.Renders heap value (style.unfoldingText heap tree)
  | .leaf notArray => .item notArray
  | @Value.Unfolds.cut _ _ ref entered =>
    have ⟨within, above⟩ := below ref rfl
    -- an array that it stands inside of contains it, so it would contain itself
    absurd (above ref entered) (noCycle ref within)
  | .array _ items =>
    .array (renderEach_of_unfoldEach style noCycle (fun _ member => below.item member) items)

theorem renderEach_of_unfoldEach (style : Rendering) (noCycle : heap.NoCycle top)
    {inside : List ArrayRef} {values : List Value} {trees : List Unfolding}
    (below : ∀ value ∈ values, heap.Below top inside value) :
    Value.UnfoldEach heap inside values trees →
      style.RenderEach heap values (style.unfoldingTexts heap trees)
  | .nil => .nil
  | .cons first others =>
    .cons (renders_of_unfolds style noCycle (below _ List.mem_cons_self) first)
      (renderEach_of_unfoldEach style noCycle
        (fun value member => below value (List.mem_cons_of_mem _ member)) others)

end

/-- The text of an array without cycles is that of a rendering that takes no notice of them. -/
theorem renders_iff_of_noCycle (style : Rendering) (noCycle : heap.NoCycle top) (text : Text) :
    style.Renders heap (.array top) text ↔ text = style.arrayText heap top := by
  obtain ⟨tree, unfolds⟩ := Value.exists_unfolds heap [] (.array top)
  have renders := renders_of_unfolds style noCycle (heap.below_top top) unfolds
  rw [arrayText_of_unfolds style unfolds]
  constructor
  · exact fun other => other.unique renders
  · rintro rfl
    exact renders

/-- So are the texts of its items. -/
theorem renderEach_iff_of_noCycle (style : Rendering) (noCycle : heap.NoCycle top)
    (texts : List Text) :
    style.RenderEach heap (heap.items top).toList texts ↔
      texts = (heap.items top).toList.map
        (style.itemText heap (Value.renderFuel heap) [top]) := by
  obtain ⟨trees, each⟩ := Value.exists_unfoldEach fun item
    (_ : item ∈ (heap.items top).toList) => Value.exists_unfolds heap [top] item
  have renders := renderEach_of_unfoldEach style noCycle
    (fun item member => (heap.below_top top).item member) each
  rw [itemTexts_of_unfoldEach style (fun _ _ => heap.outside_lt_fuel _) each]
  constructor
  · exact fun others => others.unique renders
  · rintro rfl
    exact renders

end Rendering

/-! ### The three renderings -/

namespace Value

variable {heap : Heap}

theorem Unfolds.eq_leaf {value : Value} {tree : Unfolding} (unfolds : value.Unfolds heap [] tree)
    (notArray : ∀ ref, value ≠ .array ref) : tree = .leaf value :=
  unfolds.unique (.leaf notArray)

theorem Unfolds.wholeText_array {ref : ArrayRef} {tree : Unfolding}
    (unfolds : (Value.array ref).Unfolds heap [] tree) (style : Rendering) :
    style.wholeText heap tree = style.arrayText heap ref := by
  rw [Rendering.arrayText_of_unfolds style unfolds]
  cases unfolds with
  | leaf notArray => exact absurd rfl (notArray ref)
  | cut | array => rfl

theorem toText_of_unfolds {value : Value} {tree : Unfolding}
    (unfolds : value.Unfolds heap [] tree) :
    value.toText heap = Rendering.joined.wholeText heap tree := by
  cases value with
  | array ref => rw [toText_array, unfolds.wholeText_array]
  | _ =>
    rw [unfolds.eq_leaf (by simp)]
    rfl

theorem inspect_of_unfolds {value : Value} {tree : Unfolding}
    (unfolds : value.Unfolds heap [] tree) :
    value.inspect heap = Rendering.console.wholeText heap tree := by
  cases value with
  | array ref => rw [inspect_array, unfolds.wholeText_array]
  | _ =>
    rw [unfolds.eq_leaf (by simp)]
    rfl

theorem joinText_of_unfoldEach {ref : ArrayRef} {items : List Unfolding}
    (each : UnfoldEach heap [ref] (heap.items ref).toList items) (separator : Text) :
    joinText heap separator ref =
      Text.intercalate separator (Rendering.joined.unfoldingTexts heap items) := by
  rw [joinText_eq, Rendering.itemTexts_of_unfoldEach _ (fun _ _ => heap.outside_lt_fuel _) each]

theorem joinText_comma (heap : Heap) (ref : ArrayRef) :
    joinText heap "," ref = (array ref).toText heap := by
  obtain ⟨tree, unfolds⟩ := exists_unfolds heap [] (.array ref)
  rw [toText_of_unfolds unfolds]
  cases unfolds with
  | leaf notArray => exact absurd rfl (notArray ref)
  | cut entered => cases entered
  | array fresh items => exact joinText_of_unfoldEach items ","

/-- A value, whatever its arrays share and contain, is shown as its unfolding, in which an array is
cut off if and only if it stands inside itself. There is exactly one unfolding. The plain text, the
console text and the text that `join` makes with a separator are plain recursive renderings of it,
and joining with a comma gives the plain text. Of an array without cycles, all three are those of a
rendering that takes no notice of cycles. -/
theorem text_is_of_unfolding (heap : Heap) (value : Value) :
    ∃ tree, (∀ other, value.Unfolds heap [] other ↔ other = tree) ∧
      value.toText heap = Rendering.joined.wholeText heap tree ∧
      value.inspect heap = Rendering.console.wholeText heap tree ∧
      ∀ ref, value = .array ref →
        (∃ items, tree = .array items ∧ ∀ separator, joinText heap separator ref =
          Text.intercalate separator (Rendering.joined.unfoldingTexts heap items)) ∧
        joinText heap "," ref = value.toText heap ∧
        (heap.NoCycle ref → ∀ text,
          (Rendering.joined.Renders heap value text ↔ text = value.toText heap) ∧
          (Rendering.console.Renders heap value text ↔ text = value.inspect heap) ∧
          ∀ separator, (∃ texts, Rendering.joined.RenderEach heap (heap.items ref).toList texts ∧
            text = Text.intercalate separator texts) ↔ text = joinText heap separator ref) := by
  obtain ⟨tree, unfolds⟩ := exists_unfolds heap [] value
  refine ⟨tree, fun other => ⟨fun also => also.unique unfolds, ?_⟩, toText_of_unfolds unfolds,
    inspect_of_unfolds unfolds, ?_⟩
  · rintro rfl
    exact unfolds
  · rintro ref rfl
    refine ⟨?_, joinText_comma heap ref, fun noCycle text => ?_⟩
    · cases unfolds with
      | leaf notArray => exact absurd rfl (notArray ref)
      | cut entered => cases entered
      | @array _ _ items _ each => exact ⟨items, rfl, joinText_of_unfoldEach each⟩
    · rw [toText_array, inspect_array]
      refine ⟨Rendering.renders_iff_of_noCycle _ noCycle text,
        Rendering.renders_iff_of_noCycle _ noCycle text, fun separator => ?_⟩
      simp only [joinText_eq, Rendering.renderEach_iff_of_noCycle _ noCycle, exists_eq_left]

/-- An array that contains another one twice has no cycle, and the other one is shown twice. -/
theorem text_is_of_unfolding_shared :
    let heap : Heap := ⟨#[#[.array ⟨1⟩, .array ⟨1⟩], #[.text "a", .undefined]], #[]⟩
    heap.NoCycle ⟨0⟩ ∧ (array ⟨0⟩).toText heap = "a,,a," ∧
      Rendering.joined.Renders heap (.array ⟨0⟩) "a,,a," ∧
      (array ⟨0⟩).inspect heap = "[ [ 'a', undefined ], [ 'a', undefined ] ]" ∧
      Rendering.console.Renders heap (.array ⟨0⟩) "[ [ 'a', undefined ], [ 'a', undefined ] ]" ∧
      joinText heap "; " ⟨0⟩ = "a,; a," ∧
      ∃ texts, Rendering.joined.RenderEach heap (heap.items ⟨0⟩).toList texts ∧
        "a,; a," = Text.intercalate "; " texts := by
  intro heap
  have contains {outer inner : ArrayRef} (contained : heap.Contains outer inner) :
      outer = ⟨0⟩ ∧ inner = ⟨1⟩ := by
    obtain ⟨i⟩ := outer
    rcases i with _ | _ | i
    · simpa [Heap.Contains, Heap.items, heap] using contained
    · simp [Heap.Contains, Heap.items, heap] at contained
    · simp [Heap.Contains, Heap.items, heap] at contained
  have noCycle : heap.NoCycle ⟨0⟩ := by
    intro inner _ cycle
    -- a cycle would leave the array that it comes back to
    obtain ⟨_, first, -⟩ := TransGen.head'_iff.1 cycle
    obtain ⟨_, -, last⟩ := TransGen.tail'_iff.1 cycle
    exact absurd ((contains first).1.symm.trans (contains last).2) (by simp)
  have plain : (array ⟨0⟩).toText heap = "a,,a," := by decide +kernel
  have console : (array ⟨0⟩).inspect heap = "[ [ 'a', undefined ], [ 'a', undefined ] ]" := by
    decide +kernel
  have joined : joinText heap "; " ⟨0⟩ = "a,; a," := by decide +kernel
  obtain ⟨_, -, -, -, texts⟩ := text_is_of_unfolding heap (.array ⟨0⟩)
  have renders := (texts ⟨0⟩ rfl).2.2 noCycle
  exact ⟨noCycle, plain, (renders _).1.2 plain.symm, console, (renders _).2.1.2 console.symm,
    joined, ((renders _).2.2 _).2 joined.symm⟩

/-- Two arrays that contain each other: each is cut off inside itself, but not beside itself. -/
example :
    let heap : Heap := ⟨#[#[.array ⟨1⟩, .array ⟨1⟩], #[.array ⟨0⟩, .text "b"]], #[]⟩
    (array ⟨0⟩).toText heap = ",b,,b" ∧
      (array ⟨0⟩).inspect heap = "[ [ [Circular], 'b' ], [ [Circular], 'b' ] ]" := by
  decide +kernel

end Value

end YapLang
