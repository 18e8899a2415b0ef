import YapLang.Value.Text

/-!
# One scheme for both renderings

The plain text and the console text of an array are put together in one way: an array that comes up
inside itself is cut, and any other one is made of the texts of its items. They differ in the texts
of items that are no arrays, in what is put around and between them, and in what stands for a cut.
What the console shows of an empty array it shows before it asks whether to cut, but an array that
something is inside of is not empty.
-/
namespace YapLang

/-- How the items of an array are shown. -/
structure Rendering where
  /-- The text of an item that is not an array. -/
  item : Heap → Value → Text
  /-- Puts the texts of the items together. -/
  array : List Text → Text
  /-- What stands for an array inside itself. -/
  cut : Text

namespace Rendering

/-- Renders a value that stands inside the given arrays. -/
def itemText (style : Rendering) (heap : Heap) :
    (fuel : Nat) → (inside : List ArrayRef) → Value → Text
  | 0, _, .array _ => ""
  | fuel + 1, inside, .array ref =>
    if inside.contains ref then style.cut
    else style.array ((heap.items ref).toList.map (itemText style heap fuel (ref :: inside)))
  | _, _, value => style.item heap value

/-- Renders an array. -/
def arrayText (style : Rendering) (heap : Heap) (ref : ArrayRef) : Text :=
  style.itemText heap (Value.renderFuel heap) [] (.array ref)

/-- Items are shown by their plain text, except that `undefined` is left out. -/
def joined : Rendering where
  item heap
    | .undefined => ""
    | value => value.scalarText heap
  array := Text.intercalate ","
  cut := ""

/-- Texts are quoted, and items stand in brackets. -/
def console : Rendering where
  item heap
    | .text s => Text.quoted s
    | value => value.scalarText heap
  array
    | [] => "[]"
    | parts => "[ " ++ Text.intercalate ", " parts ++ " ]"
  cut := "[Circular]"

end Rendering

namespace Value

open Rendering

variable (heap : Heap)

/-- The text of an item, which is left out if it is `undefined`. -/
theorem itemText_joined (fuel : Nat) (active : List ArrayRef) (item : Value) :
    joined.itemText heap fuel active item =
      match item with
      | undefined => ""
      | item => textWithin heap fuel active item := by
  induction fuel generalizing active item with
  | zero => cases item <;> rfl
  | succ fuel ih =>
    cases item with
    | array ref =>
      simp only [itemText, textWithin]
      -- the items are rendered with one step less and one more array active
      rw [List.map_congr_left fun item _ => ih (ref :: active) item]
      rfl
    | _ => rfl

theorem map_itemText_joined (fuel : Nat) (active : List ArrayRef) (items : List Value) :
    (items.map fun
      | undefined => ""
      | item => textWithin heap fuel active item) =
      items.map (joined.itemText heap fuel active) :=
  List.map_congr_left fun item _ => (itemText_joined heap fuel active item).symm

/-- The console text of what is inside of arrays. -/
theorem inspectWithin_nested (fuel : Nat) {active : List ArrayRef}
    (filled : ∀ ref ∈ active, heap.items ref ≠ #[]) (item : Value) :
    inspectWithin heap fuel true active item = console.itemText heap fuel active item := by
  induction fuel generalizing active item with
  | zero => cases item <;> rfl
  | succ fuel ih =>
    cases item with
    | array ref =>
      simp only [inspectWithin, itemText]
      by_cases empty : heap.items ref = #[]
      · -- nothing is inside of an empty array, so it is not to be cut
        have outside : ref ∉ active := fun member => filled ref member empty
        simp [empty, outside, console]
      · have filled : ∀ other ∈ ref :: active, heap.items other ≠ #[] := by
          simpa using ⟨empty, filled⟩
        rw [List.map_congr_left fun item _ => ih filled item]
        have nonempty : (heap.items ref).toList ≠ [] := by simpa using empty
        -- `console` distinguishes lists of texts, so the items have to be seen as one
        obtain ⟨first, others, listed⟩ := List.exists_cons_of_ne_nil nonempty
        simp [empty, listed, console]
    | _ => rfl

theorem toText_array (ref : ArrayRef) : (array ref).toText heap = joined.arrayText heap ref :=
  (itemText_joined heap _ [] (.array ref)).symm

theorem inspect_array (ref : ArrayRef) : (array ref).inspect heap = console.arrayText heap ref :=
  @inspectWithin_nested heap (renderFuel heap) [] (by simp) (.array ref)

theorem joinText_eq (separator : Text) (ref : ArrayRef) :
    joinText heap separator ref = Text.intercalate separator
      ((heap.items ref).toList.map (joined.itemText heap (renderFuel heap) [ref])) :=
  congrArg _ (map_itemText_joined heap _ [ref] _)

theorem argumentsText_eq (args : List Value) :
    argumentsText heap args =
      Text.intercalate "," (args.map (joined.itemText heap (renderFuel heap) [])) :=
  congrArg _ (map_itemText_joined heap _ [] args)

end Value

end YapLang
