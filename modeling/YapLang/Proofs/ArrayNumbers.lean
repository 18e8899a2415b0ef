import YapLang.Proofs.LexicalForms
import YapLang.Proofs.Unfoldings
import YapLang.Value.Operator

/-!
# Arrays as numbers

An array counts as a number in two ways: operators look at how many items it has and count a single
one by its text, while a comparison with a number counts the text of the whole array. For most
arrays the two come to the same. A text with a comma in it is not a number, so several items are
none in both ways. A single item has the text of the array, even if it is an array that contains the
outer one: where the outer array would come up again, its only item is cut off, and nothing is left
of it.

The exception is an array of nothing but `undefined`. As an item, `undefined` is left out of the
text, but by itself it is a word, so the array is not a number although its text is empty and counts
as zero.
-/
namespace YapLang

/-! ### Texts that are not numbers -/

namespace Text

theorem mem_dropWhile {within : Char → Bool} {c : Char} {cs : List Char}
    (outside : within c = false) (member : c ∈ cs) : c ∈ cs.dropWhile within := by
  rw [← List.takeWhile_append_dropWhile (p := within) (l := cs)] at member
  refine (List.mem_append.1 member).resolve_left fun taken => ?_
  rw [List.mem_takeWhile_imp taken] at outside
  cases outside

theorem mem_trim {within : Char → Bool} {c : Char} {cs : List Char} (outside : within c = false)
    (member : c ∈ cs) : c ∈ trim within cs := by
  rw [trim, List.mem_reverse]
  exact mem_dropWhile outside (List.mem_reverse.2 (mem_dropWhile outside member))

theorem mem_splitSign {c : Char} {cs : List Char} (noSign : c ≠ '+' ∧ c ≠ '-') (member : c ∈ cs) :
    c ∈ (Numeral.splitSign cs).2 := by
  rw [← Numeral.splitSign_append cs] at member
  refine (List.mem_append.1 member).resolve_left fun isSign => ?_
  rcases Numeral.mem_splitSign c (by simpa using isSign) with plus | minus
  · exact noSign.1 plus
  · exact noSign.2 minus

theorem ofText?_of_comma {cs : List Char} (comma : ',' ∈ cs) : Numeral.ofText? cs = none := by
  unfold Numeral.ofText?
  split
  next n found =>
    -- a text that is a numeral has the characters of numerals only
    have text := Numeral.text_append_of_split? found
    rw [List.append_nil] at text
    rw [← text] at comma
    rcases Numeral.chars_of_formed (Numeral.formed_of_split? found) comma with digit | listed
    · exact absurd digit (by decide)
    · exact absurd listed (by decide)
  · rfl

theorem signedNumber?_of_comma {cs : List Char} (comma : ',' ∈ cs) : signedNumber? cs = none := by
  have magnitude : ',' ∈ (Numeral.splitSign cs).2 := mem_splitSign (by decide) comma
  have noWord : (Numeral.splitSign cs).2 ≠ "Infinity".toList := by
    intro word
    rw [word] at magnitude
    exact absurd magnitude (by decide)
  simp only [signedNumber?, if_neg noWord, ofText?_of_comma magnitude, Option.map_none]

theorem mapM_eq_none {α β : Type} {f : α → Option β} {a : α} {as : List α} (member : a ∈ as)
    (fails : f a = none) : as.mapM f = none := by
  induction as with
  | nil => cases member
  | cons first rest ih =>
    rw [List.mapM_cons]
    rcases List.mem_cons.1 member with rfl | later
    · rw [fails]
      rfl
    · rw [ih later]
      cases f first <;> rfl

theorem baseNumber?_of_comma (base : Nat) {cs : List Char} (comma : ',' ∈ cs) :
    baseNumber? base cs = none := by
  have noDigit : baseDigit? base ',' = none := rfl
  rw [baseNumber?, mapM_eq_none comma noDigit]
  split <;> rfl

theorem markedInteger?_of_comma {cs : List Char} (comma : ',' ∈ cs) : markedInteger? cs = none := by
  unfold markedInteger?
  split
  next mark digits =>
    by_cases isComma : mark = ','
    · subst isComma
      rfl
    · have inDigits : ',' ∈ digits := by simpa [Ne.symm isComma] using comma
      simp [baseNumber?_of_comma _ inDigits]
  · rfl

/-- A text with a comma in it is not a number. -/
theorem coerce?_of_comma {s : String} (comma : ',' ∈ s.toList) : coerce? s = some Double.nan := by
  have trimmed : ',' ∈ trimBlanks s.toList := mem_trim (by decide) comma
  have nonempty : (trimBlanks s.toList).isEmpty = false := by
    rw [List.isEmpty_eq_false_iff]
    exact List.ne_nil_of_mem trimmed
  simp only [coerce?, nonempty, signedNumber?_of_comma trimmed, markedInteger?_of_comma trimmed]
  rfl

end Text

namespace Value

variable {heap : Heap} {ref inner : ArrayRef}

/-! ### The text of an array with a single item -/

theorem joined_array_single (text : Text) : Rendering.joined.array [text] = text := rfl

theorem toText_items (heap : Heap) (ref : ArrayRef) :
    (array ref).toText heap = Rendering.joined.array
      ((heap.items ref).toList.map (Rendering.joined.itemText heap heap.arrays.size [ref])) := by
  simp [toText_array, Rendering.arrayText, renderFuel, Rendering.itemText]

/-- Inside its only item, an array is shown as if it were cut off: there, that item would be cut
off. The fuel is the same, so the recursion of the rendering carries the argument. -/
theorem itemText_inside_item (single : (heap.items ref).toList = [.array inner]) (fuel : Nat)
    {inside more : List ArrayRef} (isInside : inner ∈ inside)
    (added : ∀ other, other ∈ more ↔ other = ref ∨ other ∈ inside) (value : Value) :
    Rendering.joined.itemText heap fuel inside value =
      Rendering.joined.itemText heap fuel more value := by
  induction fuel generalizing inside more value with
  | zero =>
    cases value with
    | _ => rfl
  | succ fuel ih =>
    cases value with
    | array other =>
      by_cases entered : other ∈ inside
      · simp [Rendering.itemText, entered, (added other).2 (.inr entered)]
      by_cases isOuter : other = ref
      · subst isOuter
        have cut : Rendering.joined.itemText heap fuel (other :: inside) (.array inner) = "" := by
          cases fuel with
          | zero => rfl
          | succ => simp [Rendering.itemText, isInside]; rfl
        have also : other ∈ more := (added other).2 (.inl rfl)
        simp [Rendering.itemText, entered, also, single, cut, joined_array_single]
        rfl
      · have notMore : other ∉ more := by simp [added, isOuter, entered]
        have items :=
          @ih (other :: inside) (other :: more) (List.mem_cons_of_mem _ isInside) (by grind)
        simp [Rendering.itemText, entered, notMore, funext items]
    | _ => rfl

theorem toText_nested (single : (heap.items ref).toList = [.array inner]) :
    (array ref).toText heap = (array inner).toText heap := by
  by_cases same : inner = ref
  · rw [same]
  have first : heap.outside [ref] < heap.outside [] :=
    Heap.outside_cons_lt (by simp) (single ▸ List.mem_singleton_self _)
  have bound : heap.outside [] ≤ heap.arrays.size := Nat.le_of_lt_succ (heap.outside_lt_fuel [])
  obtain ⟨fuel, size⟩ : ∃ fuel, heap.arrays.size = fuel + 1 :=
    ⟨heap.arrays.size - 1, by omega⟩
  have items : ∀ item ∈ (heap.items inner).toList,
      Rendering.joined.itemText heap fuel [inner, ref] item =
        Rendering.joined.itemText heap heap.arrays.size [inner] item := by
    intro item member
    have second : heap.outside [inner, ref] < heap.outside [ref] :=
      Heap.outside_cons_lt (by simpa using same) member
    calc Rendering.joined.itemText heap fuel [inner, ref] item
        = Rendering.joined.itemText heap heap.arrays.size [inner, ref] item :=
          Rendering.itemText_fuel _ (by omega) (by omega) item
      _ = Rendering.joined.itemText heap heap.arrays.size [inner] item :=
          (itemText_inside_item single _ (by simp) (by grind) item).symm
  calc (array ref).toText heap
      = Rendering.joined.itemText heap heap.arrays.size [ref] (.array inner) := by
        rw [toText_items, single]
        exact joined_array_single _
    _ = Rendering.joined.array
          ((heap.items inner).toList.map (Rendering.joined.itemText heap fuel [inner, ref])) := by
        rw [size]
        simp [Rendering.itemText, same]
    _ = (array inner).toText heap := by rw [List.map_congr_left items, toText_items]

/-- An array with a single item has the text of that item, unless it is `undefined`. -/
theorem toText_single {item : Value} (single : (heap.items ref).toList = [item])
    (defined : item ≠ .undefined) : (array ref).toText heap = item.toText heap := by
  cases item with
  | undefined => exact absurd rfl defined
  | array inner => exact toText_nested single
  | _ =>
    rw [toText_items, single, List.map_singleton, joined_array_single,
      Rendering.itemText_of_not_array _ _ _ _ (by simp)]
    rfl

theorem comma_mem_toText {first second : Value} {rest : List Value}
    (several : (heap.items ref).toList = first :: second :: rest) :
    .char ',' ∈ ((array ref).toText heap).letters := by
  rw [toText_items, several]
  simp [Rendering.joined, Text.intercalate]

theorem textNumber_of_comma {s : Text} (comma : .char ',' ∈ s.letters) :
    textNumber s = .ok Double.nan := by
  obtain ⟨head, tail⟩ := s
  cases tail with
  | nil =>
    have inString : ',' ∈ head.toList := by simpa [Text.letters, Text.charLetters] using comma
    simp only [textNumber, Text.coerce?_of_comma inString]
  | cons => rfl

/-! ### The two ways to count an array -/

/-- Of `undefined` alone: the word is not a number, while the text of the array is empty. -/
theorem toNumber_array_undefined (single : (heap.items ref).toList = [.undefined]) :
    (array ref).toNumber heap = .ok Double.nan ∧
      textNumber ((array ref).toText heap) = .ok 0.0 := by
  constructor
  · simp only [toNumber, single]
    show textNumber "undefined" = .ok Double.nan
    decide +kernel
  · rw [toText_items, single, List.map_singleton, joined_array_single,
      Rendering.itemText_of_not_array _ _ _ _ (by simp)]
    rfl

theorem toNumber_array_eq (defined : (heap.items ref).toList ≠ [.undefined]) :
    (array ref).toNumber heap = textNumber ((array ref).toText heap) := by
  cases items : (heap.items ref).toList with
  | nil =>
    simp only [toNumber, toText_items, items]
    rfl
  | cons first rest =>
    cases rest with
    | nil =>
      rw [items] at defined
      rw [toText_single items (by simpa using defined)]
      simp only [toNumber, items]
    | cons second rest =>
      simp only [toNumber, items, textNumber_of_comma (comma_mem_toText items)]

theorem looseEquals_number (heap : Heap) (ref : ArrayRef) (x : Float) :
    looseEquals heap (array ref) (number x) =
      (textNumber ((array ref).toText heap)).map (· == x) := by
  simp [looseEquals, typeName, unbool]

/-- An array counts as the number that its text counts as if and only if it is not an array of
nothing but `undefined`; cycles make no difference. For every other array and every number,
comparing the two with `==` gives the same as comparing what unary `+` makes of the array, and fails
if that does. -/
theorem array_counts_as_text_iff (heap : Heap) (ref : ArrayRef) :
    ((array ref).toNumber heap = textNumber ((array ref).toText heap) ↔
      heap.items ref ≠ #[.undefined]) ∧
    (heap.items ref ≠ #[.undefined] → ∀ x,
      binary heap "==" (array ref) (number x) =
        (unary heap "+" (array ref)).bind fun y => binary heap "==" y (number x)) := by
  have listed : heap.items ref = #[.undefined] ↔ (heap.items ref).toList = [.undefined] := by
    rw [← Array.toList_inj]
  refine ⟨⟨?_, ?_⟩, ?_⟩
  · intro same undefined
    obtain ⟨isNaN, isZero⟩ := toNumber_array_undefined (listed.1 undefined)
    rw [isNaN, isZero] at same
    exact absurd (Except.ok.inj same) (by decide)
  · exact fun defined => toNumber_array_eq (mt listed.2 defined)
  · intro defined x
    have same := toNumber_array_eq (mt listed.2 defined)
    simp only [binary, unary, looseEquals_number, ← same]
    cases (array ref).toNumber heap with
    | error fault => rfl
    | ok y => simp [Except.map, Except.bind, looseEquals, typeName, strictEquals]

/-- Two arrays that contain nothing but each other: both count as zero. -/
theorem array_counts_as_text_iff_circular :
    let heap : Heap := ⟨#[#[.array ⟨1⟩], #[.array ⟨0⟩]], #[]⟩
    heap.items ⟨0⟩ ≠ #[.undefined] ∧
      (array ⟨0⟩).toNumber heap = textNumber ((array ⟨0⟩).toText heap) ∧
      unary heap "+" (array ⟨0⟩) = .ok (number 0.0) ∧
      binary heap "==" (array ⟨0⟩) (number 0.0) = binary heap "==" (number 0.0) (number 0.0) := by
  intro heap
  have defined : heap.items ⟨0⟩ ≠ #[.undefined] := by decide
  have zero : unary heap "+" (array ⟨0⟩) = .ok (number 0.0) := by rfl
  obtain ⟨same, compared⟩ := array_counts_as_text_iff heap ⟨0⟩
  refine ⟨defined, same.2 defined, zero, ?_⟩
  rw [compared defined, zero]
  rfl

/-- An array of `undefined` alone is equal to zero, but what unary `+` makes of it is not. -/
theorem array_of_undefined_is_not_its_text :
    let heap : Heap := ⟨#[#[.undefined]], #[]⟩
    (array ⟨0⟩).toNumber heap ≠ textNumber ((array ⟨0⟩).toText heap) ∧
      binary heap "==" (array ⟨0⟩) (number 0.0) = .ok (bool true) ∧
      (unary heap "+" (array ⟨0⟩)).bind (binary heap "==" · (number 0.0)) = .ok (bool false) := by
  intro heap
  obtain ⟨isNaN, isZero⟩ := @toNumber_array_undefined heap ⟨0⟩ rfl
  refine ⟨?_, ?_, ?_⟩
  · rw [isNaN, isZero]
    decide
  · simp only [binary, looseEquals_number, isZero]
    decide
  · simp only [unary, isNaN]
    decide

end Value

end YapLang
