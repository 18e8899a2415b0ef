import YapLang.Proofs.ArrayNumbers
import YapLang.Proofs.EqualityLaws
import YapLang.Proofs.PrintedNumbers

/-!
# When a value has no number

Every value counts as a number, with one exception. A decimal numeral that is too large is infinity,
but a whole number in another base goes through the integers, and one that no double is near to has
no number. Such a text makes the operators, the updates and the functions of `Math` halt that count
it, and so does an array of which it is the only item, however deep.

The condition is exact: which texts these are is said by their characters, and an integer is too
large from half a unit of the last place above the greatest double on.
-/
namespace YapLang

namespace Double

/-! ### The first number that is rounded to infinity -/

/-- Half a unit below an even number is the first to be rounded up to it: the tie goes to the even
neighbour. -/
theorem even_le_roundQuotient_iff {n num den : Nat} (positive : 0 < den) :
    2 * n + 2 ≤ roundQuotient num den ↔ (4 * n + 3) * den ≤ 2 * num := by
  have parts := Nat.div_add_mod num den
  have small := Nat.mod_lt num positive
  simp only [roundQuotient]
  generalize num / den = quotient at parts ⊢
  generalize num % den = rest at parts small ⊢
  subst parts
  -- only the quotient right below can be rounded up to it, and a tie is enough for that
  rcases Nat.lt_trichotomy quotient (2 * n + 1) with less | rfl | more
  · have step : den * (quotient + 1) ≤ den * (2 * n + 1) := Nat.mul_le_mul_left den less
    have far : ¬ (4 * n + 3) * den ≤ 2 * (den * quotient + rest) := by
      rw [Nat.mul_add] at step
      rw [Nat.mul_comm, Nat.mul_add]
      have : den * (4 * n) = 2 * (den * (2 * n)) := by ring
      rw [Nat.mul_add] at step
      omega
    simp only [far, iff_false]
    split
    · omega
    · split <;> omega
  · have same : (4 * n + 3) * den = 2 * (den * (2 * n + 1)) + den := by ring
    rw [same]
    split
    · omega
    · split <;> omega
  · have step : den * (2 * n + 2) ≤ den * quotient := Nat.mul_le_mul_left den more
    have near : (4 * n + 3) * den ≤ 2 * (den * quotient + rest) := by
      have same : (4 * n + 3) * den + den = 2 * (den * (2 * n + 2)) := by ring
      omega
    simp only [near, iff_true]
    split
    · omega
    · split <;> omega

/-- From half a unit above the greatest double on, a number is rounded to infinity. -/
theorem nearestBits_eq_infinityBits_iff {q : ℚ} (positive : 0 < q) :
    nearestBits q = infinityBits ↔ (2 ^ 54 - 1) * 2 ^ (970 : Int) ≤ q := by
  by_cases large : (2 : ℚ) ^ (1024 : Int) ≤ q
  · have less : ((2 : ℚ) ^ 54 - 1) * 2 ^ (970 : Int) ≤ 2 ^ (1024 : Int) := by
      rw [show (1024 : Int) = 54 + 970 from rfl, zpow_add₀ (by norm_num)]
      gcongr
      norm_num
    rw [nearestBits_of_large large]
    exact iff_of_true rfl (less.trans large)
  have order : Int.log 2 q < 1024 :=
    (Int.lt_zpow_iff_log_lt (by norm_num) positive).1 (by exact_mod_cast lt_of_not_ge large)
  obtain ⟨num, den, den_positive, ratio, bits⟩ := exists_nearestBits positive
  have den_pos : (0 : ℚ) < den := by exact_mod_cast den_positive
  rw [bits, min_eq_right_iff]
  rcases (show lastPlace q ≤ 971 by simp only [lastPlace]; omega).lt_or_eq with less | last
  · -- Below the last binade there is room for a carry.
    have units := (units_bounds positive den_positive ratio).1
    apply iff_of_false
    · simp only [infinityBits, Nat.pow_eq]
      omega
    · rw [not_le]
      calc q < 2 ^ (lastPlace q + 53) := lt_zpow_lastPlace positive
        _ ≤ 2 ^ ((53 : Int) + 970) := zpow_le_zpow_right₀ (by norm_num) (by omega)
        _ = 2 ^ (53 : Int) * 2 ^ (970 : Int) := zpow_add₀ (by norm_num) _ _
        _ ≤ (2 ^ 54 - 1) * 2 ^ (970 : Int) := by
          gcongr
          norm_num
  -- in the last binade, it is a carry out of all digits that makes it infinite
  · have carry : infinityBits ≤ (lastPlace q + 1074).toNat * Nat.pow 2 52 + roundQuotient num den ↔
        2 * (2 ^ 52 - 1) + 2 ≤ roundQuotient num den := by
      rw [last]
      simp only [infinityBits, Nat.pow_eq]
      omega
    have value : (2 : ℚ) * num = q / 2 ^ (970 : Int) * den := by
      rw [(div_eq_iff den_pos.ne').1 ratio, last, show (971 : Int) = 970 + 1 from rfl,
        zpow_add_one₀ (by norm_num)]
      field_simp
    have unit_pos : (0 : ℚ) < 2 ^ (970 : Int) := by positivity
    -- otherwise the power is computed
    generalize (2 : ℚ) ^ (970 : Int) = unit at value unit_pos ⊢
    rw [carry, even_le_roundQuotient_iff den_positive, ← Nat.cast_le (α := ℚ)]
    push_cast
    rw [value, mul_le_mul_iff_of_pos_right den_pos, le_div_iff₀ unit_pos]
    norm_num

/-- The least whole number that is too large for a double: half a unit of the last place above the
greatest double. -/
def leastTooLarge : Nat := (2 ^ 54 - 1) * 2 ^ 970

theorem ofInt?_eq_none_iff (n : Nat) : ofInt? n = none ↔ leastTooLarge ≤ n := by
  have bits : magnitudeBits (ofInt n) = nearestBits n := by
    rw [ofInt, ofRatio, magnitudeBits_ofMagnitudeBits (roundedBits_le _ _), Int.natAbs_natCast,
      roundedBits_eq_nearestBits n Nat.one_pos, Nat.cast_one, div_one]
  have most : nearestBits n ≤ infinityBits := roundedBits_le _ _
  -- no bits lie above those of infinity
  have infinite : ofInt? n = none ↔ nearestBits n = infinityBits := by
    simp only [ofInt?, isFinite, bits, decide_eq_true_eq]
    split
    · simp only [reduceCtorEq, false_iff]
      omega
    · simp only [true_iff]
      omega
  rw [infinite]
  rcases Nat.eq_zero_or_pos n with rfl | positive
  · rw [Nat.cast_zero, nearestBits_zero]
    have some : 0 < leastTooLarge := Nat.mul_pos (by norm_num) (by positivity)
    exact iff_of_false (by decide) some.not_ge
  · have cast : ((2 : ℚ) ^ 54 - 1) * 2 ^ (970 : Int) = leastTooLarge := by
      rw [leastTooLarge, Nat.cast_mul, Nat.cast_pow, Nat.cast_ofNat, ← zpow_natCast]
      norm_num
    rw [nearestBits_eq_infinityBits_iff (by exact_mod_cast positive), cast, Nat.cast_le]

end Double

/-! ### Whole numbers in other bases -/

namespace Text

/-- The marks of the bases other than ten. -/
def baseMarks : List (Char × Nat) :=
  [('x', 16), ('X', 16), ('o', 8), ('O', 8), ('b', 2), ('B', 2)]

/-- A whole number in a base other than ten: a zero, the mark of the base and digits of the base,
with any blanks around them. -/
structure MarkedInteger where
  before : List Char
  mark : Char
  base : Nat
  digits : List Char
  after : List Char
  blank_before : ∀ c ∈ before, isBlank c = true
  listed : (mark, base) ∈ baseMarks
  some_digit : digits ≠ []
  in_base : ∀ c ∈ digits, (baseDigit? base c).isSome = true
  blank_after : ∀ c ∈ after, isBlank c = true

/-- The number of digits in a base; the first has the greatest weight. -/
def baseValue (base : Nat) (digits : List Char) : Nat :=
  Nat.ofDigits base (digits.reverse.map fun c => (baseDigit? base c).getD 0)

namespace MarkedInteger

def text (n : MarkedInteger) : String :=
  String.ofList (n.before ++ '0' :: n.mark :: (n.digits ++ n.after))

def value (n : MarkedInteger) : Nat :=
  baseValue n.base n.digits

/-- The number `2 ^ 1024 - 1` in base sixteen. -/
def allOnes : MarkedInteger where
  before := []
  mark := 'x'
  base := 16
  digits := List.replicate 256 'f'
  after := []
  blank_before := by simp
  listed := by decide
  some_digit := List.cons_ne_nil _ _
  in_base := by
    intro c member
    rw [List.eq_of_mem_replicate member]
    rfl
  blank_after := by simp

theorem leastTooLarge_le_allOnes : Double.leastTooLarge ≤ allOnes.value := by
  decide +kernel

end MarkedInteger

theorem mapM_eq_some {α β : Type} {f : α → Option β} {as : List α} (default : β)
    (defined : ∀ a ∈ as, (f a).isSome = true) :
    as.mapM f = some (as.map fun a => (f a).getD default) := by
  induction as with
  | nil => rfl
  | cons a as ih =>
    obtain ⟨b, first⟩ := Option.isSome_iff_exists.1 (defined a List.mem_cons_self)
    rw [List.mapM_cons, first, ih fun c member => defined c (List.mem_cons_of_mem a member)]
    simp [first]

theorem foldl_eq_ofDigits (base : Nat) (values : List Nat) :
    values.foldl (base * · + ·) 0 = Nat.ofDigits base values.reverse := by
  rw [Nat.ofDigits_eq_foldr, List.foldr_reverse]
  congr
  funext a b
  simp [add_comm]

theorem baseNumber?_eq_some_iff {base n : Nat} {digits : List Char} :
    baseNumber? base digits = some n ↔
      digits ≠ [] ∧ (∀ c ∈ digits, (baseDigit? base c).isSome = true) ∧
        baseValue base digits = n := by
  rw [baseNumber?]
  by_cases defined : ∀ c ∈ digits, (baseDigit? base c).isSome = true
  · rw [mapM_eq_some 0 defined, Option.map_some, foldl_eq_ofDigits, ← List.map_reverse, ← baseValue]
    simp only [List.isEmpty_iff, ite_eq_iff, reduceCtorEq, and_false, false_or, Option.some.injEq]
    exact and_congr_right fun _ => (and_iff_right defined).symm
  -- one character that is no digit is enough
  · have fails : digits.mapM (baseDigit? base) = none := by
      simp only [not_forall, Option.not_isSome_iff_eq_none] at defined
      obtain ⟨c, member, none⟩ := defined
      exact mapM_eq_none member none
    simp [fails, defined]

theorem markedInteger?_eq_some_iff {cs : List Char} {n : Nat} :
    markedInteger? cs = some n ↔ ∃ mark base digits,
      cs = '0' :: mark :: digits ∧ (mark, base) ∈ baseMarks ∧ baseNumber? base digits = some n := by
  constructor
  · intro found
    unfold markedInteger? at found
    split at found
    next mark digits =>
      split at found
      next isMark =>
        exact ⟨mark, 16, digits, rfl, by rcases isMark with rfl | rfl <;> decide, found⟩
      split at found
      next isMark =>
        exact ⟨mark, 8, digits, rfl, by rcases isMark with rfl | rfl <;> decide, found⟩
      split at found
      next isMark =>
        exact ⟨mark, 2, digits, rfl, by rcases isMark with rfl | rfl <;> decide, found⟩
      cases found
    next => cases found
  · rintro ⟨mark, base, digits, rfl, listed, number⟩
    simp only [baseMarks, List.mem_cons, Prod.mk.injEq, List.not_mem_nil, or_false] at listed
    rcases listed with
      ⟨rfl, rfl⟩ | ⟨rfl, rfl⟩ | ⟨rfl, rfl⟩ | ⟨rfl, rfl⟩ | ⟨rfl, rfl⟩ | ⟨rfl, rfl⟩
    all_goals exact number

theorem exists_trim (within : Char → Bool) (cs : List Char) :
    ∃ before after, cs = before ++ trim within cs ++ after ∧
      (∀ c ∈ before, within c = true) ∧ ∀ c ∈ after, within c = true := by
  let rest := (cs.dropWhile within).reverse
  -- what is trimmed at the end is found at the front of the reversed text
  have ends : trim within cs ++ (rest.takeWhile within).reverse = cs.dropWhile within := by
    rw [trim, ← List.reverse_append, List.takeWhile_append_dropWhile, List.reverse_reverse]
  refine ⟨cs.takeWhile within, (rest.takeWhile within).reverse, ?_, ?_, ?_⟩
  · rw [List.append_assoc, ends, List.takeWhile_append_dropWhile]
  · exact fun c taken => List.mem_takeWhile_imp taken
  · exact fun c taken => List.mem_takeWhile_imp (List.mem_reverse.1 taken)

/-- What stands between blanks and starts and ends without one is what trimming leaves. -/
theorem trim_between {within : Char → Bool} {before middle after : List Char} {first last : Char}
    (inBefore : ∀ c ∈ before, within c = true) (inAfter : ∀ c ∈ after, within c = true)
    (first_out : within first = false) (last_out : within last = false) :
    trim within (before ++ (first :: middle ++ [last]) ++ after) = first :: middle ++ [last] := by
  have kept : (first :: middle ++ [last] ++ after).dropWhile within =
      first :: middle ++ [last] ++ after := by
    simp [first_out]
  rw [trim, List.append_assoc, List.dropWhile_append_of_pos inBefore, kept, List.reverse_append,
    List.dropWhile_append_of_pos (by simpa using inAfter)]
  simp [last_out]

theorem isBlank_of_isSome_baseDigit? {base : Nat} {c : Char}
    (digit : (baseDigit? base c).isSome = true) : isBlank c = false := by
  -- all digits lie in one range of codes, in which there are no blanks
  have range : 48 ≤ c.toNat ∧ c.toNat ≤ 102 := by
    have ordered : ∀ a b : Char, a ≤ b ↔ a.toNat ≤ b.toNat := fun _ _ => Char.le_def
    simp only [baseDigit?, ordered, Char.reduceToNat] at digit
    split at digit
    · omega
    split at digit
    · omega
    split at digit
    · omega
    · cases digit
  simp [isBlank, blankRanges]
  omega

theorem signedNumber?_of_mark {mark : Char} {base : Nat} (listed : (mark, base) ∈ baseMarks)
    (digits : List Char) : signedNumber? ('0' :: mark :: digits) = none := by
  simp only [baseMarks, List.mem_cons, Prod.mk.injEq, List.not_mem_nil, or_false] at listed
  -- a decimal numeral would end after the zero, in front of the mark
  rcases listed with
    ⟨rfl, rfl⟩ | ⟨rfl, rfl⟩ | ⟨rfl, rfl⟩ | ⟨rfl, rfl⟩ | ⟨rfl, rfl⟩ | ⟨rfl, rfl⟩
  all_goals rfl

theorem MarkedInteger.trimBlanks_text (n : MarkedInteger) :
    trimBlanks n.text.toList = '0' :: n.mark :: n.digits := by
  obtain ⟨digits, last, split⟩ := (List.eq_nil_or_concat n.digits).resolve_left n.some_digit
  have last_digit := n.in_base last (by simp [split])
  have trimmed := @trim_between isBlank n.before (n.mark :: digits) n.after '0' last n.blank_before
    n.blank_after (by decide) (isBlank_of_isSome_baseDigit? last_digit)
  simpa [text, split, trimBlanks] using trimmed

/-- A text has no number if and only if it is a marked integer that is too large. -/
theorem coerce?_eq_none_iff {s : String} :
    coerce? s = none ↔ ∃ n : MarkedInteger, s = n.text ∧ Double.leastTooLarge ≤ n.value := by
  constructor
  · intro fails
    simp only [coerce?] at fails
    split at fails
    · cases fails
    split at fails
    · cases fails
    split at fails
    next n found =>
      obtain ⟨mark, base, digits, trimmed, listed, number⟩ := markedInteger?_eq_some_iff.1 found
      obtain ⟨some_digit, in_base, rfl⟩ := baseNumber?_eq_some_iff.1 number
      -- the blanks that were trimmed are part of the text
      obtain ⟨before, after, whole, blank_before, blank_after⟩ := exists_trim isBlank s.toList
      rw [← trimBlanks, trimmed] at whole
      refine ⟨⟨before, mark, base, digits, after, blank_before, listed, some_digit, in_base,
        blank_after⟩, ?_, (Double.ofInt?_eq_none_iff _).1 fails⟩
      simp [MarkedInteger.text, ← String.toList_inj, whole]
    · cases fails
  · rintro ⟨n, rfl, large⟩
    have number := baseNumber?_eq_some_iff.2 ⟨n.some_digit, n.in_base, rfl⟩
    -- it is no decimal numeral, so it goes through the integers
    have marked := markedInteger?_eq_some_iff.2 ⟨_, _, _, rfl, n.listed, number⟩
    simp only [coerce?, n.trimBlanks_text, signedNumber?_of_mark n.listed, marked]
    exact (Double.ofInt?_eq_none_iff _).2 large

end Text

namespace Value

variable {heap : Heap} {a b : Value}

/-- The values that have no number: a whole number in a base other than ten that is too large for a
double, as a text or as the only item of an array. -/
inductive Overflows (heap : Heap) : Value → Prop
  | text (n : Text.MarkedInteger) : Double.leastTooLarge ≤ n.value → Overflows heap (.text n.text)
  | item {ref : ArrayRef} {item : Value} : (heap.items ref).toList = [item] → Overflows heap item →
      Overflows heap (.array ref)

/-- The text has no number. -/
def TooLarge (s : Text) : Prop :=
  textNumber s = .error .integerTooLarge

theorem tooLarge_string_iff {s : String} : TooLarge s ↔ Text.coerce? s = none := by
  simp only [TooLarge, textNumber]
  cases Text.coerce? s with
  | none => simp
  | some x => simp

theorem tooLarge_iff {s : Text} :
    TooLarge s ↔ ∃ n : Text.MarkedInteger, s = n.text ∧ Double.leastTooLarge ≤ n.value := by
  obtain ⟨head, tail⟩ := s
  cases tail with
  | nil =>
    rw [tooLarge_string_iff, Text.coerce?_eq_none_iff]
    simp only [Text.mk.injEq, and_true]
  -- a half stands in no number, whatever its size
  | cons => simp [TooLarge, textNumber]

theorem overflows_text_iff {s : Text} : Overflows heap (text s) ↔ TooLarge s := by
  rw [tooLarge_iff]
  constructor
  · rintro ⟨n, large⟩
    exact ⟨n, rfl, large⟩
  · rintro ⟨n, rfl, large⟩
    exact .text n large

theorem overflows_array_iff {ref : ArrayRef} :
    Overflows heap (array ref) ↔
      ∃ item, (heap.items ref).toList = [item] ∧ Overflows heap item := by
  constructor
  · rintro (_ | ⟨single, inner⟩)
    exact ⟨_, single, inner⟩
  · rintro ⟨item, single, inner⟩
    exact .item single inner

/-- A text that starts with neither a blank nor a zero has no mark. -/
theorem not_tooLarge_of_head {s : Text} {c : Char} (first : s.letters.head? = some (.char c))
    (blank : Text.isBlank c = false) (digit : c ≠ '0') : ¬TooLarge s := by
  rw [tooLarge_iff]
  rintro ⟨n, rfl, -⟩
  have blanks := n.blank_before
  rw [Text.letters_whole, Text.MarkedInteger.text, String.toList_ofList] at first
  -- a marked integer starts with a blank or with its zero
  cases before : n.before with
  | nil =>
    rw [before] at first
    exact digit (Letter.char.inj (Option.some.inj first)).symm
  | cons other more =>
    rw [before] at first blanks
    rw [← Letter.char.inj (Option.some.inj first), blanks other List.mem_cons_self] at blank
    cases blank

theorem not_tooLarge_scalarText (notText : ∀ s, a ≠ text s) (notArray : ∀ ref, a ≠ array ref) :
    ¬TooLarge (a.scalarText heap) := by
  cases a with
  | number x =>
    rw [scalarText, tooLarge_string_iff]
    -- the text of a number is read as that number, negative zero apart
    by_cases signed : x = Double.negativeZero
    · rw [signed]
      decide +kernel
    · simp [Layout.coerce?_double signed]
  | text s => exact absurd rfl (notText s)
  | array ref => exact absurd rfl (notArray ref)
  | bool b =>
    cases b
    · exact @not_tooLarge_of_head _ 'f' (by simp [scalarText]) (by decide) (by decide)
    · exact @not_tooLarge_of_head _ 't' (by simp [scalarText]) (by decide) (by decide)
  | undefined => exact @not_tooLarge_of_head _ 'u' (by simp [scalarText]) (by decide) (by decide)
  | closure ref =>
    exact @not_tooLarge_of_head _ '[' (by simp [scalarText]) (by decide) (by decide)
  | builtin function =>
    exact @not_tooLarge_of_head _ '<' (by simp [scalarText]) (by decide) (by decide)
  | method _ name _ =>
    exact @not_tooLarge_of_head _ '<' (by simp [scalarText]) (by decide) (by decide)
  | mathNamespace =>
    exact @not_tooLarge_of_head _ '[' (by simp [scalarText]) (by decide) (by decide)

theorem not_overflows_of_scalar (notText : ∀ s, a ≠ text s) (notArray : ∀ ref, a ≠ array ref) :
    ¬Overflows heap a := by
  rintro (⟨n, -⟩ | ⟨-, -⟩)
  · exact notText _ rfl
  · exact notArray _ rfl

theorem overflows_of_scalarText (notArray : ∀ ref, a ≠ array ref)
    (fails : TooLarge (a.scalarText heap)) : Overflows heap a := by
  by_cases isText : ∃ s, a = text s
  · obtain ⟨s, rfl⟩ := isText
    exact overflows_text_iff.2 fails
  · exact absurd fails (not_tooLarge_scalarText (not_exists.1 isText) notArray)

theorem not_tooLarge_empty : ¬TooLarge "" := by
  rw [tooLarge_string_iff]
  decide +kernel

theorem joined_item (defined : a ≠ undefined) :
    Rendering.joined.item heap a = a.scalarText heap := by
  cases a with
  | undefined => exact absurd rfl defined
  | _ => rfl

theorem overflows_of_item (notArray : ∀ ref, a ≠ array ref)
    (fails : TooLarge (Rendering.joined.item heap a)) : Overflows heap a := by
  by_cases defined : a = undefined
  · rw [defined] at fails
    exact absurd fails not_tooLarge_empty
  · rw [joined_item defined] at fails
    exact overflows_of_scalarText notArray fails

/-- The text of an array has no number only if its one item has none; the recursion of the rendering
carries the argument, and where it is cut, nothing is left. -/
theorem overflows_of_itemText (fuel : Nat) (inside : List ArrayRef)
    (fails : TooLarge (Rendering.joined.itemText heap fuel inside a)) :
    Overflows heap a := by
  induction fuel generalizing inside a with
  | zero =>
    cases a with
    | array ref => exact absurd fails not_tooLarge_empty
    | _ =>
      rw [Rendering.itemText_of_not_array _ _ _ _ (by simp)] at fails
      exact overflows_of_item (by simp) fails
  | succ fuel ih =>
    cases a with
    | array ref =>
      rw [Rendering.itemText] at fails
      split at fails
      · exact absurd fails not_tooLarge_empty
      cases items : (heap.items ref).toList with
      | nil =>
        rw [items] at fails
        exact absurd fails not_tooLarge_empty
      | cons first rest =>
        cases rest with
        | nil =>
          rw [items, List.map_singleton, joined_array_single] at fails
          exact .item items (ih _ fails)
        | cons second rest =>
          -- several items are divided by a comma, which no number has
          rw [items, TooLarge, textNumber_of_comma] at fails
          · cases fails
          · simp [Rendering.joined, Text.intercalate]
    | _ =>
      rw [Rendering.itemText_of_not_array _ _ _ _ (by simp)] at fails
      exact overflows_of_item (by simp) fails

theorem tooLarge_toText_iff : TooLarge (a.toText heap) ↔ Overflows heap a := by
  constructor
  · intro fails
    cases a with
    | array ref =>
      rw [toText_array] at fails
      exact overflows_of_itemText _ _ fails
    | _ => exact overflows_of_scalarText (by simp) fails
  · intro overflows
    induction overflows with
    | text n large => exact tooLarge_iff.2 ⟨n, rfl, large⟩
    | @item ref item single inner ih =>
      rw [toText_single single]
      · exact ih
      · rintro rfl
        exact not_overflows_of_scalar (by simp) (by simp) inner

/-! ### Operators -/

/-- The computation fails if a condition holds, and then because an integer is too large; otherwise
it gives a result. -/
def FailsIff {α : Type} (large : Prop) (x : Except Fault α) : Prop :=
  (large → x = .error .integerTooLarge) ∧ (¬large → ∃ result, x = .ok result)

namespace FailsIff

variable {α β : Type} {P Q : Prop} {x : Except Fault α}

theorem ok (value : α) (never : ¬P) : FailsIff P (.ok value : Except Fault α) :=
  ⟨fun large => absurd large never, fun _ => ⟨value, rfl⟩⟩

theorem map {f : α → β} (fails : FailsIff P x) : FailsIff P (x.map f) := by
  constructor
  · intro large
    rw [fails.1 large]
    rfl
  · intro small
    obtain ⟨result, computed⟩ := fails.2 small
    rw [computed]
    exact ⟨f result, rfl⟩

theorem bind {f : α → Except Fault β} (first : FailsIff P x) (next : ∀ a, FailsIff Q (f a)) :
    FailsIff (P ∨ Q) (x >>= f) := by
  by_cases large : P
  · rw [first.1 large]
    exact ⟨fun _ => rfl, fun small => absurd (.inl large) small⟩
  · obtain ⟨result, computed⟩ := first.2 large
    rw [computed, or_iff_right large]
    exact next result

theorem congr (fails : FailsIff P x) (same : P ↔ Q) : FailsIff Q x := by
  rwa [← propext same]

end FailsIff

theorem textNumber_failsIff (s : Text) : FailsIff (TooLarge s) (textNumber s) := by
  refine ⟨fun large => large, fun small => ?_⟩
  cases outcome : textNumber s with
  | ok x => exact ⟨x, rfl⟩
  | error fault =>
    rw [onlyRange_textNumber s fault outcome] at outcome
    exact absurd outcome small

theorem toNumber_failsIff (heap : Heap) (a : Value) :
    FailsIff (Overflows heap a) (a.toNumber heap) := by
  cases a with
  | text s => exact (textNumber_failsIff s).congr overflows_text_iff.symm
  | array ref =>
    rw [toNumber, overflows_array_iff]
    split
    next items => exact .ok _ (by simp [items])
    next item items =>
      refine (textNumber_failsIff _).congr ?_
      simp [items, tooLarge_toText_iff]
    next several single =>
      refine .ok _ ?_
      rintro ⟨item, items, -⟩
      exact single item items
  | _ => exact .ok _ (not_overflows_of_scalar (by simp) (by simp))

theorem arithmetic_failsIff (f : Float → Float → Float) :
    FailsIff (Overflows heap a ∨ Overflows heap b) (arithmetic heap f a b) := by
  have second := fun x =>
    (toNumber_failsIff heap b).bind fun y => .ok (number (f x y)) not_false
  exact ((toNumber_failsIff heap a).bind second).congr (by simp)

/-- Whether a value is a number or a truth value. -/
def isNumeric (a : Value) : Bool :=
  a.typeName == "Number" || a.typeName == "Boolean"

/-- Whether an operator counts texts and arrays among its operands as numbers. Comparisons do so
beside some other operands only; addition never does, it puts texts together. -/
def counts (op : Text) (a b : Value) : Bool :=
  match op with
  | .whole "-" | .whole "*" | .whole "/" | .whole "%" => true
  | .whole "<" | .whole ">" | .whole "<=" | .whole ">=" =>
    !(a.typeName == "String" && b.typeName == "String")
  | .whole "==" | .whole "!=" => a.isNumeric || b.isNumeric
  | _ => false

theorem isTextual_of_overflows (overflows : Overflows heap a) : a.isTextual = true := by
  cases overflows <;> rfl

theorem isNumeric_of_overflows (overflows : Overflows heap a) : a.isNumeric = false := by
  cases overflows <;> rfl

theorem isConvertible_of_overflows (overflows : Overflows heap a) : a.isConvertible = true := by
  cases overflows <;> rfl

theorem isConvertible_of_isNumeric (numeric : a.isNumeric = true) (notBool : ∀ p, a ≠ bool p) :
    a.isConvertible = true := by
  cases a with
  | number x => rfl
  | bool p => exact absurd rfl (notBool p)
  | _ => simp [isNumeric, typeName] at numeric

theorem looseEquals_failsIff :
    FailsIff ((a.isNumeric || b.isNumeric) = true ∧ (Overflows heap a ∨ Overflows heap b))
      (looseEquals heap a b) := by
  have compares : Compares heap a b (looseEquals heap a b) := compares_iff.2 rfl
  generalize looseEquals heap a b = outcome at compares
  induction compares with
  | @alike a b same =>
    refine .ok _ ?_
    rintro ⟨numeric, overflows⟩
    have both : a.isNumeric = b.isNumeric := by simp only [isNumeric, same]
    rcases overflows with left | right
    · simp [← both, isNumeric_of_overflows left] at numeric
    · simp [both, isNumeric_of_overflows right] at numeric
  | boolLeft differ _ ih =>
    refine ih.congr ?_
    simp [unbool, isNumeric, typeName, not_overflows_of_scalar]
  | boolRight differ _ ih =>
    refine ih.congr ?_
    simp [unbool, isNumeric, typeName, not_overflows_of_scalar]
  | numberText =>
    refine (textNumber_failsIff _).map.congr ?_
    simp [isNumeric, typeName, not_overflows_of_scalar, overflows_text_iff]
  | textNumber =>
    refine (textNumber_failsIff _).map.congr ?_
    simp [isNumeric, typeName, not_overflows_of_scalar, overflows_text_iff]
  | arrayLeft plain _ ih =>
    refine ih.congr ?_
    rw [overflows_text_iff, tooLarge_toText_iff]
    simp [isNumeric, typeName]
  | arrayRight plain _ ih =>
    refine ih.congr ?_
    rw [overflows_text_iff, tooLarge_toText_iff]
    simp [isNumeric, typeName]
  | @unlike a b differ left right apart =>
    refine .ok _ ?_
    rintro ⟨numeric, overflows⟩
    -- the number and the value that is too large could both be converted
    have both : (a.isConvertible && b.isConvertible) = true := by
      rcases overflows with large | large
      · rw [isNumeric_of_overflows large, Bool.false_or] at numeric
        rw [isConvertible_of_overflows large, isConvertible_of_isNumeric numeric right]
        rfl
      · rw [isNumeric_of_overflows large, Bool.or_false] at numeric
        rw [isConvertible_of_overflows large, isConvertible_of_isNumeric numeric left]
        rfl
    rw [both] at apart
    cases apart

theorem exists_text (isString : a.typeName = "String") : ∃ s, a = text s := by
  cases a with
  | text s => exact ⟨s, rfl⟩
  | _ => simp [typeName] at isString

theorem ordering_failsIff (texts : Text → Text → Bool) (numbers : Float → Float → Bool) :
    FailsIff ((!(a.typeName == "String" && b.typeName == "String")) = true ∧
      (Overflows heap a ∨ Overflows heap b)) (ordering heap texts numbers a b) := by
  unfold ordering
  split
  · exact .ok _ (by simp [typeName])
  next apart =>
    have second := fun x =>
      (toNumber_failsIff heap b).bind fun y => .ok (bool (numbers x y)) not_false
    refine ((toNumber_failsIff heap a).bind second).congr ?_
    have notTexts : (!(a.typeName == "String" && b.typeName == "String")) = true := by
      by_contra texts
      simp only [Bool.not_eq_true, Bool.not_eq_false', Bool.and_eq_true, beq_iff_eq] at texts
      obtain ⟨s, rfl⟩ := exists_text texts.1
      obtain ⟨t, rfl⟩ := exists_text texts.2
      exact apart s t rfl rfl
    simp [notTexts]

/-- The operators of the language fail only where they count a value that is too large. -/
theorem binary_failsIff {op : Text}
    (isOperator : op ∈ ["==", "===", "!=", "!==", "<", ">", "<=", ">=", "+", "-", "*", "/", "%"].map
      Text.whole) :
    FailsIff (counts op a b = true ∧ (Overflows heap a ∨ Overflows heap b))
      (binary heap op a b) := by
  unfold binary
  split
  · refine FailsIff.congr (P := False) ?_ (by simp [counts])
    split
    · exact .ok _ not_false
    next texts =>
      refine (arithmetic_failsIff _).congr (iff_of_false ?_ not_false)
      rintro (large | large)
      · simp [isTextual_of_overflows large] at texts
      · simp [isTextual_of_overflows large] at texts
  case h_6 | h_7 => exact looseEquals_failsIff.map
  case h_8 | h_9 => exact .ok _ (by simp [counts])
  case h_10 | h_11 | h_12 | h_13 => exact ordering_failsIff _ _
  case h_14 => simp_all
  all_goals exact (arithmetic_failsIff _).congr (by simp [counts])

theorem unary_failsIff {op : Text} (isOperator : op ∈ ["!", "-", "+"].map Text.whole) :
    FailsIff (op ≠ "!" ∧ Overflows heap a) (unary heap op a) := by
  unfold unary
  split
  · exact .ok _ (by simp)
  · exact (toNumber_failsIff heap a).map.congr (by simp)
  · exact (toNumber_failsIff heap a).map.congr (by simp)
  · simp_all

end Value

namespace Run

open Value

variable {α : Type} {m : Machine}

/-- From this state the run halts if a condition holds, because an integer is too large and without
any change; otherwise it gives a value. -/
def HaltsIff (large : Prop) (x : Run α) (m : Machine) : Prop :=
  (large → x m = .error (.fault .integerTooLarge) m) ∧ (¬large → ∃ a m', x m = .ok a m')

theorem compute_of_ok {f : Heap → Except Fault α} {a : α} (computed : f m.heap = .ok a) :
    compute f m = .ok a m := by
  rw [compute, get_bind, computed]
  rfl

theorem compute_of_error {f : Heap → Except Fault α} {fault : Fault}
    (failed : f m.heap = .error fault) : compute f m = .error (.fault fault) m := by
  rw [compute, get_bind, failed]
  rfl

theorem compute_haltsIff {large : Prop} {f : Heap → Except Fault α}
    (fails : FailsIff large (f m.heap)) : HaltsIff large (compute f) m := by
  constructor
  · exact fun holds => compute_of_error (fails.1 holds)
  · intro holds
    obtain ⟨a, computed⟩ := fails.2 holds
    exact ⟨a, m, compute_of_ok computed⟩

theorem number_of_overflows {a : Value} (large : Overflows m.heap a) :
    number a m = .error (.fault .integerTooLarge) m :=
  compute_of_error ((toNumber_failsIff m.heap a).1 large)

theorem exists_number {a : Value} (small : ¬Overflows m.heap a) : ∃ x, number a m = .ok x m := by
  obtain ⟨x, counted⟩ := (toNumber_failsIff m.heap a).2 small
  exact ⟨x, compute_of_ok counted⟩

theorem mapM_number_of_overflows {args : List Value} (large : ∃ a ∈ args, Overflows m.heap a) :
    args.mapM number m = .error (.fault .integerTooLarge) m := by
  induction args with
  | nil => simp at large
  | cons first rest ih =>
    rw [List.mapM_cons]
    by_cases here : Overflows m.heap first
    · exact bind_of_error (number_of_overflows here)
    · obtain ⟨x, counted⟩ := exists_number here
      rw [bind_of_ok counted]
      exact bind_of_error (ih (by simpa [here] using large))

theorem exists_mapM_number {args : List Value} (small : ∀ a ∈ args, ¬Overflows m.heap a) :
    ∃ xs, args.mapM number m = .ok xs m := by
  induction args with
  | nil => exact ⟨[], rfl⟩
  | cons first rest ih =>
    obtain ⟨x, counted⟩ := exists_number (small first List.mem_cons_self)
    obtain ⟨xs, others⟩ := ih fun a member => small a (List.mem_cons_of_mem first member)
    rw [List.mapM_cons, bind_of_ok counted, bind_of_ok others]
    exact ⟨x :: xs, rfl⟩

theorem callBuiltin_math_haltsIff (settings : Settings) (function : MathFunction)
    (args : List Value) :
    HaltsIff (function ≠ .random ∧ ∃ a ∈ args, Overflows m.heap a)
      (callBuiltin settings (.math function) args) m := by
  by_cases random : function = .random
  · subst random
    exact ⟨fun large => absurd rfl large.1, fun _ => ⟨_, _, rfl⟩⟩
  have equation : callBuiltin settings (.math function) args =
      args.mapM number >>= fun xs => pure (.number (function.apply xs)) := by
    cases function with
    | random => exact absurd rfl random
    | _ => rfl
  rw [equation]
  constructor
  · exact fun large => bind_of_error (mapM_number_of_overflows large.2)
  · intro small
    obtain ⟨xs, counted⟩ := @exists_mapM_number m args (by simpa [random] using small)
    rw [bind_of_ok counted]
    exact ⟨_, m, rfl⟩

theorem update_haltsIff {op : Text} (isOperator : op ∈ ["++", "--"].map Text.whole)
    (settings : Settings) (depth : Nat) {scope : ScopeRef} {target : Text} {old : Value}
    (bound : m.scopes.get? target scope = some old) :
    HaltsIff (Overflows m.heap old)
      (evaluate settings (depth + 1) scope (.update op target)) m := by
  have read : readName scope target m = .ok old m := by
    rw [readName, get_bind, bound]
    rfl
  have equation : evaluate settings (depth + 1) scope (.update op target) = (do
      let old ← readName scope target
      let x ← number old
      let y ← compute fun _ => updated op x
      assignName scope target (.number y)) := by
    rw [evaluate]
  rw [equation]
  constructor
  · intro large
    rw [bind_of_ok read]
    exact bind_of_error (number_of_overflows large)
  · intro small
    obtain ⟨x, counted⟩ := exists_number small
    obtain ⟨y, changed⟩ : ∃ y, updated op x = .ok y := by
      simp only [List.map_cons, List.map_nil, List.mem_cons, List.not_mem_nil,
        or_false] at isOperator
      rcases isOperator with rfl | rfl <;> exact ⟨_, rfl⟩
    obtain ⟨owner, resolved, -⟩ := Option.bind_eq_some_iff.1 bound
    rw [bind_of_ok read, bind_of_ok counted, bind_of_ok (compute_of_ok changed), assignName,
      get_bind, resolved]
    exact ⟨_, _, rfl⟩

/-- Counting a value as a number, the operators of the language, the updates of a name and the
functions of `Math` halt on a whole number in a base other than ten that is too large for a double,
where they count it, and never else. -/
theorem counting_halts_iff_too_large (settings : Settings) (m : Machine) :
    (∀ a, HaltsIff (Overflows m.heap a) (number a) m) ∧
    (∀ op ∈ ["==", "===", "!=", "!==", "<", ">", "<=", ">=", "+", "-", "*", "/", "%"], ∀ a b,
      HaltsIff (counts op a b = true ∧ (Overflows m.heap a ∨ Overflows m.heap b))
        (compute (binary · op a b)) m) ∧
    (∀ op ∈ ["!", "-", "+"], ∀ a,
      HaltsIff (op ≠ "!" ∧ Overflows m.heap a) (compute (unary · op a)) m) ∧
    (∀ op ∈ ["++", "--"], ∀ depth scope target old, m.scopes.get? target scope = some old →
      HaltsIff (Overflows m.heap old)
        (evaluate settings (depth + 1) scope (.update op target)) m) ∧
    (∀ function args, HaltsIff (function ≠ .random ∧ ∃ a ∈ args, Overflows m.heap a)
      (callBuiltin settings (.math function) args) m) := by
  refine ⟨?_, ?_, ?_, ?_, ?_⟩
  · exact fun a => compute_haltsIff (toNumber_failsIff m.heap a)
  · exact fun op isOperator a b =>
      compute_haltsIff (binary_failsIff (List.mem_map_of_mem isOperator))
  · intro op isOperator a
    refine compute_haltsIff ((unary_failsIff (List.mem_map_of_mem isOperator)).congr ?_)
    simp
  · exact fun op isOperator depth scope target old =>
      update_haltsIff (List.mem_map_of_mem isOperator) settings depth
  · exact callBuiltin_math_haltsIff settings

/-- A name that is bound to a number beyond the doubles cannot be updated, but can be added to. -/
theorem counting_halts_iff_too_large_bound :
    let large : Value := .text Text.MarkedInteger.allOnes.text
    let m := Machine.start [("x", large)] fun _ => 0
    m.scopes.get? "x" Machine.globalScope = some large ∧ "++" ∈ ["++", "--"] ∧
      "+" ∈ ["==", "===", "!=", "!==", "<", ">", "<=", ">=", "+", "-", "*", "/", "%"] ∧
      evaluate ⟨0, 0, .memory⟩ 1 Machine.globalScope (.update "++" "x") m =
        .error (.fault .integerTooLarge) m ∧
      ∃ a m', compute (binary · "+" large (.number 1.0)) m = .ok a m' := by
  intro large m
  have bound : m.scopes.get? "x" Machine.globalScope = some large := by rfl
  have overflows : Overflows m.heap large := .text _ Text.MarkedInteger.leastTooLarge_le_allOnes
  obtain ⟨-, operators, -, updates, -⟩ := counting_halts_iff_too_large ⟨0, 0, .memory⟩ m
  have added := operators "+" (by simp) large (.number 1.0)
  refine ⟨bound, by simp, by simp, ?_, ?_⟩
  · exact (updates "++" (by simp) 0 Machine.globalScope "x" large bound).1 overflows
  · exact added.2 (by simp [counts])

/-- A whole number in base sixteen that is too large has no number, while a decimal numeral that is
too large is infinity. -/
theorem large_marked_integer_has_no_number :
    let digits := String.ofList (List.replicate 256 'f')
    (text ("0x" ++ digits)).toNumber ⟨#[], #[]⟩ = .error .integerTooLarge ∧
      (text "1e999").toNumber ⟨#[], #[]⟩ = .ok Double.infinity := by
  intro digits
  have same : Text.MarkedInteger.allOnes.text = "0x" ++ digits := by
    simp only [← String.toList_inj, Text.MarkedInteger.text, Text.MarkedInteger.allOnes, digits,
      String.toList_append, String.toList_ofList, List.append_nil, List.nil_append]
    -- the digits need not be counted one by one
    generalize List.replicate 256 'f' = run
    rfl
  have large : Overflows ⟨#[], #[]⟩ (text ("0x" ++ digits)) := by
    rw [Text.append_whole, ← same]
    exact .text _ Text.MarkedInteger.leastTooLarge_le_allOnes
  exact ⟨(toNumber_failsIff _ _).1 large, by decide +kernel⟩

end Run

end YapLang
