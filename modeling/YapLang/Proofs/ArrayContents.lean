import Mathlib.Data.Fintype.Card
import Mathlib.Data.Fintype.EquivFin
import Mathlib.Logic.Relation
import YapLang.Proofs.Renderings

/-!
# Arrays as trees

Values refer to arrays, and arrays may be shared and may contain themselves. Where no array is
inside itself, a value with the arrays that it refers to is a finite tree, whatever is shared: its
content. There are finitely many arrays, so going from an array to its items comes to an end.

A rendering carries along the arrays that it is inside of. Of an array without cycles it never comes
across one of them, nor does its fuel run out, as no array is entered twice on the way to an item:
it is the plain recursive rendering of the content.
-/
namespace YapLang

open Relation (ReflTransGen TransGen)

/-- The one number that is printed without its sign. -/
def Double.negativeZero : Float :=
  ofMagnitudeBits true 0

/-- What a value comes to if it is plain data. -/
inductive Content where
  | number (x : Float)
  | text (s : Text)
  | bool (b : Bool)
  | undefined
  | array (items : List Content)

namespace Content

mutual

/-- How deep the deepest item is inside of arrays. -/
def nesting : Content → Nat
  | array items => nestingOfItems items
  | _ => 0

def nestingOfItems : List Content → Nat
  | [] => 0
  | content :: rest => max (content.nesting + 1) (nestingOfItems rest)

end

end Content

namespace Value

variable (heap : Heap)

mutual

/-- The value is data with the given content: numbers other than negative zero, texts, truth values,
`undefined`, and arrays of such. -/
inductive HasContent : Value → Content → Prop where
  | number {x} : x ≠ Double.negativeZero → HasContent (.number x) (.number x)
  | text {s} : HasContent (.text s) (.text s)
  | bool {b} : HasContent (.bool b) (.bool b)
  | undefined : HasContent .undefined .undefined
  | array {ref items} :
      ref.index < heap.arrays.size → HaveContents (heap.items ref).toList items →
      HasContent (.array ref) (.array items)

/-- The values have the contents, one by one. -/
inductive HaveContents : List Value → List Content → Prop where
  | nil : HaveContents [] []
  | cons {value values content contents} :
      HasContent value content → HaveContents values contents →
      HaveContents (value :: values) (content :: contents)

end

/-- A value that may be an item of an array of data. -/
def IsDatum : Value → Prop
  | .number x => x ≠ Double.negativeZero
  | .text _ | .bool _ | .undefined | .array _ => True
  | _ => False

end Value

namespace Heap

/-- The second array is an item of the first one. -/
def Contains (heap : Heap) (outer inner : ArrayRef) : Prop :=
  .array inner ∈ (heap.items outer).toList

/-- The second array is the first one or inside it. -/
def Within (heap : Heap) (outer inner : ArrayRef) : Prop :=
  ReflTransGen heap.Contains outer inner

/-- The array holds data without cycles: what is inside of it exists, is data, and is not inside
itself. -/
structure IsData (heap : Heap) (ref : ArrayRef) : Prop where
  exist : ∀ inner, heap.Within ref inner → inner.index < heap.arrays.size
  noCycle : ∀ inner, heap.Within ref inner → ¬TransGen heap.Contains inner inner
  data : ∀ inner, heap.Within ref inner → ∀ item ∈ (heap.items inner).toList, item.IsDatum

variable {heap : Heap} {top : ArrayRef}

/-! ### The content of an array -/

/-- Among the arrays inside an array of data, containment is well-founded. -/
theorem IsData.wellFounded (isData : heap.IsData top) :
    WellFounded fun inner outer : { ref // heap.Within top ref } =>
      TransGen heap.Contains outer.1 inner.1 := by
  -- an array is told by its index, and there are finitely many of those
  let position (ref : { ref // heap.Within top ref }) : Fin heap.arrays.size :=
    ⟨ref.1.index, isData.exist ref.1 ref.2⟩
  have injective : Function.Injective position := by
    rintro ⟨⟨i⟩, _⟩ ⟨⟨j⟩, _⟩ same
    cases same
    rfl
  have finite : Finite { ref // heap.Within top ref } := .of_injective position injective
  have trans : IsTrans { ref // heap.Within top ref }
      fun inner outer => TransGen heap.Contains outer.1 inner.1 :=
    ⟨fun _ _ _ first second => second.trans first⟩
  have irrefl : Std.Irrefl fun inner outer : { ref // heap.Within top ref } =>
      TransGen heap.Contains outer.1 inner.1 :=
    ⟨fun ref => isData.noCycle ref.1 ref.2⟩
  exact Finite.wellFounded_of_trans_of_irrefl _

end Heap

namespace Value

variable {heap : Heap} {top : ArrayRef}

theorem exists_haveContents {values : List Value}
    (each : ∀ value ∈ values, ∃ content, HasContent heap value content) :
    ∃ contents, HaveContents heap values contents := by
  induction values with
  | nil => exact ⟨[], .nil⟩
  | cons value values ih =>
    obtain ⟨content, first⟩ := each value List.mem_cons_self
    obtain ⟨contents, others⟩ := ih fun value member => each value (List.mem_cons_of_mem _ member)
    exact ⟨content :: contents, .cons first others⟩

theorem exists_hasContent (isData : heap.IsData top) :
    ∃ content, HasContent heap (.array top) content := by
  suffices ∀ ref : { ref // heap.Within top ref }, ∃ content, HasContent heap (.array ref.1) content
    from this ⟨top, .refl⟩
  intro ref
  induction ref using isData.wellFounded.induction with
  | _ ref ih =>
    obtain ⟨ref, within⟩ := ref
    have items : ∀ item ∈ (heap.items ref).toList, ∃ content, HasContent heap item content := by
      intro item member
      have datum := isData.data ref within item member
      cases item with
      | number x => exact ⟨_, .number datum⟩
      | text s => exact ⟨_, .text⟩
      | bool b => exact ⟨_, .bool⟩
      | undefined => exact ⟨_, .undefined⟩
      | array inner => exact ih ⟨inner, within.tail member⟩ (.single member)
      | closure | builtin | method | mathNamespace => exact datum.elim
    obtain ⟨contents, all⟩ := exists_haveContents items
    exact ⟨.array contents, .array (isData.exist ref within) all⟩

end Value

mutual

/-- A value has one content. -/
theorem Value.HasContent.unique {heap : Heap} {value : Value} {content other : Content} :
    value.HasContent heap content → value.HasContent heap other → content = other
  | .number _, .number _ | .text, .text | .bool, .bool | .undefined, .undefined => rfl
  | .array _ items, .array _ others => congrArg Content.array (items.unique others)

theorem Value.HaveContents.unique {heap : Heap} {values : List Value}
    {contents others : List Content} :
    Value.HaveContents heap values contents → Value.HaveContents heap values others →
      contents = others
  | .nil, .nil => rfl
  | .cons first rest, .cons first' rest' => by rw [first.unique first', rest.unique rest']

end

/-! ### Growing heaps -/

/-- Arrays were added, and those that were there have kept their items. -/
def Heap.Extends (heap heap' : Heap) : Prop :=
  ∃ more, heap'.arrays = heap.arrays ++ more

namespace Heap.Extends

variable {heap heap' heap'' : Heap}

theorem refl (heap : Heap) : heap.Extends heap :=
  ⟨#[], by simp⟩

theorem trans (first : heap.Extends heap') (second : heap'.Extends heap'') :
    heap.Extends heap'' := by
  obtain ⟨more, added⟩ := first
  obtain ⟨further, added'⟩ := second
  exact ⟨more ++ further, by rw [added', added, Array.append_assoc]⟩

theorem size_le (grown : heap.Extends heap') : heap.arrays.size ≤ heap'.arrays.size := by
  obtain ⟨more, added⟩ := grown
  simp [added]

theorem items_eq (grown : heap.Extends heap') {ref : ArrayRef}
    (there : ref.index < heap.arrays.size) : heap'.items ref = heap.items ref := by
  obtain ⟨more, added⟩ := grown
  simp [Heap.items, added, there, Array.getElem?_append]

end Heap.Extends

mutual

theorem Value.HasContent.mono {heap heap' : Heap} (grown : heap.Extends heap') {value : Value}
    {content : Content} : value.HasContent heap content → value.HasContent heap' content
  | .number signed => .number signed
  | .text => .text
  | .bool => .bool
  | .undefined => .undefined
  | .array there items => by
    -- the array was there, so its items are the same
    have kept := items.mono grown
    rw [← grown.items_eq there] at kept
    exact .array (Nat.lt_of_lt_of_le there grown.size_le) kept

theorem Value.HaveContents.mono {heap heap' : Heap} (grown : heap.Extends heap')
    {values : List Value} {contents : List Content} :
    Value.HaveContents heap values contents → Value.HaveContents heap' values contents
  | .nil => .nil
  | .cons first others => .cons (first.mono grown) (others.mono grown)

end

/-! ### Rendering -/

namespace Rendering

mutual

/-- The plain recursive rendering of a content. -/
def contentText (style : Rendering) (heap : Heap) : Content → Text
  | .number x => style.item heap (.number x)
  | .text s => style.item heap (.text s)
  | .bool b => style.item heap (.bool b)
  | .undefined => style.item heap .undefined
  | .array items => style.array (contentTexts style heap items)

def contentTexts (style : Rendering) (heap : Heap) : List Content → List Text
  | [] => []
  | content :: rest => contentText style heap content :: contentTexts style heap rest

end

/-- On the way to an array a rendering is inside of these other arrays. -/
structure Path (heap : Heap) (top : ArrayRef) (inside : List ArrayRef) (ref : ArrayRef) :
    Prop where
  within : heap.Within top ref
  above : ∀ outer ∈ inside, heap.Within top outer ∧ TransGen heap.Contains outer ref
  nodup : inside.Nodup

namespace Path

variable {heap : Heap} {top ref inner : ArrayRef} {inside : List ArrayRef}
  (isData : heap.IsData top) (path : Path heap top inside ref)
include isData path

theorem not_mem : ref ∉ inside :=
  fun member => isData.noCycle ref path.within (path.above ref member).2

theorem step (contains : heap.Contains ref inner) : Path heap top (ref :: inside) inner where
  within := path.within.tail contains
  above := by
    intro outer member
    rcases List.mem_cons.1 member with rfl | member
    · exact ⟨path.within, .single contains⟩
    · exact ⟨(path.above outer member).1, (path.above outer member).2.tail contains⟩
  nodup := List.nodup_cons.2 ⟨path.not_mem isData, path.nodup⟩

/-- No array is entered twice, so there are fewer of them on the way than there are arrays. -/
theorem length_lt : inside.length < heap.arrays.size := by
  -- the array and those around it are different places of the heap
  have nodup : ((ref :: inside).map ArrayRef.index).Nodup := by
    refine List.Nodup.map ?_ (List.nodup_cons.2 ⟨path.not_mem isData, path.nodup⟩)
    rintro ⟨i⟩ ⟨j⟩ same
    exact congrArg ArrayRef.mk same
  have subset : (ref :: inside).map ArrayRef.index ⊆ List.range heap.arrays.size := by
    intro i member
    obtain ⟨outer, listed, rfl⟩ := List.mem_map.1 member
    rw [List.mem_range]
    rcases List.mem_cons.1 listed with rfl | above
    · exact isData.exist _ path.within
    · exact isData.exist _ (path.above outer above).1
  simpa [Nat.succ_le_iff] using (List.subperm_of_subset nodup subset).length_le

end Path

variable {heap : Heap} {top : ArrayRef}

mutual

theorem itemText_eq (isData : heap.IsData top) (style : Rendering) {inside : List ArrayRef}
    {fuel : Nat} (enough : Value.renderFuel heap ≤ fuel + inside.length) {value : Value}
    {content : Content} (path : ∀ ref, value = .array ref → Path heap top inside ref) :
    value.HasContent heap content →
      style.itemText heap fuel inside value = style.contentText heap content
  | .number _ | .text | .bool | .undefined => by cases fuel <;> rfl
  | @Value.HasContent.array _ ref _ _ items => by
    have path := path ref rfl
    -- the fuel lasts, as no array is on the path twice
    have shorter := path.length_lt isData
    obtain ⟨fuel, rfl⟩ : ∃ less, fuel = less + 1 :=
      ⟨fuel - 1, by simp only [Value.renderFuel] at enough; omega⟩
    have enough : Value.renderFuel heap ≤ fuel + (ref :: inside).length := by
      simp only [List.length_cons]
      omega
    have texts := itemTexts_eq isData style enough (fun item member inner same => by
      subst same
      exact path.step isData member) items
    simp [itemText, contentText, path.not_mem isData, texts]

theorem itemTexts_eq (isData : heap.IsData top) (style : Rendering) {inside : List ArrayRef}
    {fuel : Nat} (enough : Value.renderFuel heap ≤ fuel + inside.length) {values : List Value}
    {contents : List Content}
    (paths : ∀ value ∈ values, ∀ ref, value = .array ref → Path heap top inside ref) :
    Value.HaveContents heap values contents →
      values.map (style.itemText heap fuel inside) = style.contentTexts heap contents
  | .nil => rfl
  | .cons first others => by
    have firstText := itemText_eq isData style enough (paths _ List.mem_cons_self) first
    have otherTexts := itemTexts_eq isData style enough
      (fun value member => paths value (List.mem_cons_of_mem _ member)) others
    rw [List.map_cons, contentTexts, firstText, otherTexts]

end

/-- An array of data is rendered as its content. -/
theorem arrayText_eq (isData : heap.IsData top) (style : Rendering) {content : Content}
    (has : (Value.array top).HasContent heap content) :
    style.arrayText heap top = style.contentText heap content := by
  have path : ∀ ref, Value.array top = .array ref → Path heap top [] ref := by
    rintro _ ⟨⟩
    exact ⟨.refl, by simp, .nil⟩
  exact itemText_eq isData style (Nat.le_refl _) path has

end Rendering

end YapLang
