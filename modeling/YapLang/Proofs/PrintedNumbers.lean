import YapLang.Proofs.ArrayContents
import YapLang.Proofs.Cutting
import YapLang.Proofs.NumberText
import YapLang.Value.Operator

/-!
# Numbers are printed exactly, and no longer than necessary

The decimal of a number has no zeros at its end, so that neither the fraction nor the mantissa of
what is printed has one. Its digits and its exponent bound its value by two powers of ten, and so
the position of the point, by which a layout chooses between its two forms, is a matter of the
value. What is printed counts as the number again; only the sign of zero is lost.
-/
namespace YapLang

/-- No zero of the numeral could be left out, and in front of a power of ten there is one digit
before the point. -/
structure Numeral.Tight (n : Numeral) : Prop where
  front : n.whole = ['0'] ∨ n.whole.head? ≠ some '0'
  pointed : n.point = true → n.fraction ≠ []
  back : n.fraction.getLast? ≠ some '0'
  mantissa : n.exponent.isSome = true → n.whole.length = 1 ∧ n.whole ≠ ['0']

namespace Decimal

/-! ### The point of a decimal -/

/-- The position of the decimal point relative to the first digit. -/
def point (d : Decimal) : Int :=
  d.exponent + (toString d.coefficient).toList.length

theorem length_toString_le_iff {n k : Nat} (positive : 0 < k) :
    (toString n).toList.length ≤ k ↔ n < 10 ^ k := by
  rw [Nat.toString_eq_ofList_toDigits, String.toList_ofList]
  exact Nat.length_toDigits_le_iff (by decide) positive

/-- A power of ten is above a decimal exactly if the point is not behind it. -/
theorem value_lt_iff {d : Decimal} (positive : d.coefficient ≠ 0) (k : Int) :
    d.value < 10 ^ k ↔ d.point ≤ k := by
  have scale : (0 : ℚ) < 10 ^ d.exponent := by positivity
  have shift : (10 : ℚ) ^ k = 10 ^ (k - d.exponent) * 10 ^ d.exponent := by
    rw [← zpow_add₀ (by norm_num), sub_add_cancel]
  rw [value, shift, mul_lt_mul_iff_left₀ scale, point]
  by_cases digits : 0 < k - d.exponent
  · obtain ⟨n, size⟩ := Int.eq_ofNat_of_zero_le digits.le
    have count := length_toString_le_iff (n := d.coefficient) (k := n) (by omega)
    have cast : (d.coefficient : ℚ) < 10 ^ (k - d.exponent) ↔ d.coefficient < 10 ^ n := by
      rw [size, zpow_natCast]
      exact_mod_cast Iff.rfl
    rw [cast, ← count]
    omega
  -- the coefficient is at least one and has at least one digit
  · have one : (1 : ℚ) ≤ d.coefficient := by exact_mod_cast Nat.one_le_iff_ne_zero.2 positive
    have small : (10 : ℚ) ^ (k - d.exponent) ≤ 1 :=
      zpow_le_one_of_nonpos₀ (by norm_num) (by omega)
    have nonempty := List.length_pos_of_ne_nil (Layout.toString_ne_nil d.coefficient)
    constructor
    · intro below
      exact absurd (below.trans_le small) (not_lt.2 one)
    · omega

end Decimal

namespace Layout

/-! ### The numeral that is printed -/

theorem getLast_toString {n : Nat} (last : n % 10 ≠ 0) :
    (toString n).toList.getLast? ≠ some '0' := by
  have table : ∀ d ∈ List.range 10, d ≠ 0 → d.digitChar ≠ '0' := by decide
  rw [Nat.toString_eq_ofList_toDigits, String.toList_ofList, Nat.toDigits_eq_if (by decide)]
  split
  next single => simpa using table n (List.mem_range.2 single) (by omega)
  next => simpa using table (n % 10) (List.mem_range.2 (by omega)) last

section Digits

variable {digits : List Char} (nonempty : digits ≠ []) (last : digits.getLast? ≠ some '0')
include nonempty last

theorem back_positional {layout : Layout} (plain : layout.wholeMark = "") (point : Int) :
    (layout.positionalNumeral digits point).fraction.getLast? ≠ some '0' := by
  rw [positionalNumeral, if_pos plain]
  split
  · simp
  split
  · rw [List.getLast?_drop]
    split
    · simp
    · exact last
  · dsimp only
    rwa [List.getLast?_append_of_ne_nil _ nonempty]

theorem tight_scientific (layout : Layout) (front : digits.head? ≠ some '0') (exponent : Int) :
    (layout.scientificNumeral digits exponent).Tight := by
  cases digits with
  | nil => exact absurd rfl nonempty
  | cons first rest =>
    refine ⟨.inr front, by simp [scientificNumeral], ?_, ?_⟩
    · cases rest with
      | nil => simp [scientificNumeral]
      | cons second rest => simpa [scientificNumeral] using last
    · simpa [scientificNumeral] using front

end Digits

theorem exponent_positional (layout : Layout) (digits : List Char) (point : Int) :
    (layout.positionalNumeral digits point).exponent = none := by
  unfold positionalNumeral
  split
  · dsimp only
    split <;> rfl
  · split <;> rfl

/-- A decimal without zeros at its end is printed without superfluous zeros. -/
theorem tight_numeral {layout : Layout} (plain : layout.wholeMark = "") {d : Decimal}
    (last : d.coefficient % 10 ≠ 0) : (layout.numeral d).Tight := by
  have positive : d.coefficient ≠ 0 := by omega
  have back := getLast_toString last
  have nonempty := toString_ne_nil d.coefficient
  have printed := (prints_magnitude (.inl plain) positive).toPrintedBy
  simp only [numeral] at printed ⊢
  split at printed
  · rename_i within
    rw [if_pos within]
    refine ⟨printed.front, printed.pointed, back_positional nonempty back plain _, ?_⟩
    simp [exponent_positional]
  · rename_i outside
    rw [if_neg outside]
    exact tight_scientific nonempty back layout (head_toString positive) _

/-- Whether there is a power of ten depends on the value alone. -/
theorem isSome_exponent_numeral (layout : Layout) {d : Decimal} (positive : d.coefficient ≠ 0) :
    (layout.numeral d).exponent.isSome = true ↔
      d.value < 10 ^ (layout.leastPoint - 1) ∨ 10 ^ layout.greatestPoint ≤ d.value := by
  rw [← not_lt, Decimal.value_lt_iff positive, Decimal.value_lt_iff positive, Decimal.point]
  simp only [numeral]
  split
  · rw [exponent_positional]
    simp only [Option.isSome_none, Bool.false_eq_true, false_iff]
    omega
  · simp only [scientificNumeral, Option.isSome_some, true_iff]
    omega

end Layout

namespace Text

/-! ### What is printed counts as the number -/

theorem chars_of_signed {n : Numeral} (plain : n.Plain) {negative : Bool} {c : Char}
    (member : c ∈ (Layout.signText negative).toList ++ n.text) : c ∈ "0123456789.e+-".toList := by
  rcases List.mem_append.1 member with sign | magnitude
  · cases negative with
    | false => cases sign
    | true =>
      obtain rfl := List.mem_singleton.1 sign
      decide
  · exact Numeral.chars_of_plain plain magnitude

/-- A signed numeral is the number that it denotes. -/
theorem signedNumber?_signed {n : Numeral} (plain : n.Plain) (negative : Bool) :
    signedNumber? ((Layout.signText negative).toList ++ n.text) = some (n.toDouble negative) := by
  obtain ⟨c, first, digit⟩ := Numeral.exists_head plain
  obtain ⟨cs, begins⟩ := List.head?_eq_some_iff.1 first
  have noSign : Numeral.splitSign n.text = (none, n.text) := by
    rw [begins]
    unfold Numeral.splitSign
    split
    · exact absurd digit (by simp_all)
    · exact absurd digit (by simp_all)
    · rfl
  have noWord : n.text ≠ "Infinity".toList := by
    intro same
    rw [begins] at same
    obtain rfl := (List.cons.inj same).1
    exact absurd digit (by decide)
  cases negative with
  | false =>
    have split : Numeral.splitSign ((Layout.signText false).toList ++ n.text) = (none, n.text) :=
      noSign
    simp only [signedNumber?, split, noWord, Numeral.ofText?_text plain.formed]
    rfl
  | true =>
    have split : Numeral.splitSign ((Layout.signText true).toList ++ n.text) =
        (some '-', n.text) := rfl
    simp only [signedNumber?, split, noWord, Numeral.ofText?_text plain.formed]
    rfl

/-- A signed numeral counts as the number that it denotes. -/
theorem coerce?_signed {n : Numeral} (plain : n.Plain) {negative : Bool} {s : String}
    (text : s.toList = (Layout.signText negative).toList ++ n.text) :
    coerce? s = some (n.toDouble negative) := by
  have solid : ∀ c ∈ s.toList, isBlank c = false := by
    intro c member
    have none : ("0123456789.e+-".toList.all fun c => !isBlank c) = true := by decide
    simpa using List.all_eq_true.1 none c (chars_of_signed plain (text ▸ member))
  have nonempty : s.toList.isEmpty = false := by
    rw [text]
    simp [Numeral.text, plain.nonempty]
  have signed : signedNumber? s.toList = some (n.toDouble negative) := by
    rw [text, signedNumber?_signed plain]
  simp only [coerce?, trimBlanks, trim_eq_self solid, nonempty, signed]
  rfl

end Text

/-- A finite number other than zero has a sign and a magnitude. -/
theorem Double.exists_finite {x : Float} (finite : isFinite x = true)
    (nonzero : (x == 0.0) = false) :
    ∃ negative bits, bits ≠ 0 ∧ bits < infinityBits ∧ x = ofMagnitudeBits negative bits := by
  rcases exists_ofMagnitudeBits x with rfl | ⟨negative, bits, number, rfl⟩
  · exact absurd finite (by decide)
  refine ⟨negative, bits, ?_, ?_, rfl⟩
  · rintro rfl
    cases negative <;> exact absurd nonzero (by decide +kernel)
  · rwa [isFinite, magnitudeBits_ofMagnitudeBits number, decide_eq_true_iff] at finite

theorem Token.scan_numeral {n : Numeral} (formed : n.Formed) {source : String}
    (text : source.toList = n.text) :
    ∃ t : Token, scan source = .ok [t] ∧ t.kind = .number ∧ t.text = source := by
  obtain ⟨_, scanned, t, rfl, kind, written⟩ :=
    (Lexeme.CutsInto.of_cuts (Lexeme.cuts_number formed text)).tokens (Text.stops_nil _)
  exact ⟨t, scanned, kind, written⟩

namespace Layout

theorem exists_signed {bits : Nat} (finite : bits < Double.infinityBits) {negative : Bool}
    (signed : Double.ofMagnitudeBits negative bits ≠ Double.negativeZero) :
    ∃ n : Numeral, n.Plain ∧
      (printed.double (Double.ofMagnitudeBits negative bits)).toList =
        (signText negative).toList ++ n.text ∧
      n.toDouble negative = Double.ofMagnitudeBits negative bits := by
  cases negative with
  | false => exact exists_numeral rfl finite
  | true =>
    have nonzero : bits ≠ 0 := by
      rintro rfl
      exact signed rfl
    obtain ⟨d, last, read, text⟩ := exists_decimal nonzero finite
    have prints := @prints_magnitude printed (.inl rfl) d (by omega)
    refine ⟨_, prints.toPlain, by simp [text, prints.text_eq], ?_⟩
    rw [Numeral.toDouble, Decimal.toDouble, Decimal.roundedBits_congr prints.value_eq, read]

/-- Whatever is printed counts as the number that it was printed for, unless that is the zero whose
sign is not printed. -/
theorem coerce?_double {x : Float} (signed : x ≠ Double.negativeZero) :
    Text.coerce? (printed.double x) = some x := by
  rcases Double.exists_ofMagnitudeBits x with rfl | ⟨negative, bits, number, rfl⟩
  · rw [double_nan]
    decide +kernel
  rcases Nat.lt_or_eq_of_le number with finite | rfl
  · obtain ⟨n, plain, text, value⟩ := exists_signed finite signed
    rw [Text.coerce?_signed plain text, value]
  · rw [double_infinite]
    cases negative <;> decide +kernel

/-- The numeral `repr` that documents have for the magnitude of a number and the numeral `n` that a
program prints, after its sign, are of one value. The one that is printed has no superfluous zeros,
and it has a power of ten exactly if the value is below `10 ^ -6` or not below `10 ^ 21`. Without a
sign, it is a single token. Of all numbers, only the negative zero is not read back. -/
theorem printed_exactly_and_read_back (heap : Heap) (x : Float) :
    (Double.isFinite x = true → (x == 0.0) = false →
      ∃ repr n : Numeral,
        Numeral.ofText? (data.double x.abs).toList = some repr ∧
        (printed.double x).toList = (signText (Double.isNegative x)).toList ++ n.text ∧
        Numeral.ofText? n.text = some n ∧
        Text.signedNumber? (printed.double x).toList = some x ∧
        n.toDecimal.value = repr.toDecimal.value ∧
        n.Tight ∧
        (n.exponent.isSome = true ↔
          repr.toDecimal.value < 10 ^ (-6 : ℤ) ∨ 10 ^ (21 : ℤ) ≤ repr.toDecimal.value) ∧
        (Double.isNegative x = false →
          ∃ t : Token, Token.scan (printed.double x) = .ok [t] ∧ t.kind = .number ∧
            t.text = printed.double x)) ∧
    (Value.toNumber heap (.text ((Value.number x).toText heap)) = .ok x ↔
      x ≠ Double.negativeZero) := by
  refine ⟨?_, ?_, ?_⟩
  · intro isFinite nonzero
    obtain ⟨negative, bits, notZero, finite, rfl⟩ := Double.exists_finite isFinite nonzero
    rw [Double.abs_ofMagnitudeBits finite.le, Double.isNegative_ofMagnitudeBits finite.le]
    -- both layouts print the numeral that they have for one decimal
    obtain ⟨d, last, read, text⟩ := exists_decimal notZero finite
    have positive : d.coefficient ≠ 0 := by omega
    have short := @prints_magnitude printed (.inl rfl) d positive
    have long := @prints_magnitude data (.inr rfl) d positive
    have inData : (data.double (Double.ofMagnitudeBits false bits)).toList =
        (data.numeral d).text := by
      rw [text, ← long.text_eq]
      exact congrArg String.toList String.empty_append
    have inPrint : (printed.double (Double.ofMagnitudeBits negative bits)).toList =
        (signText negative).toList ++ (printed.numeral d).text := by
      rw [text, String.toList_append, short.text_eq]
    have readBack : (printed.numeral d).toDouble negative =
        Double.ofMagnitudeBits negative bits := by
      rw [Numeral.toDouble, Decimal.toDouble, Decimal.roundedBits_congr short.value_eq, read]
    refine ⟨data.numeral d, printed.numeral d, ?_, inPrint,
      Numeral.ofText?_text short.toPlain.formed, ?_, short.value_eq.trans long.value_eq.symm,
      tight_numeral rfl last, ?_, ?_⟩
    · rw [inData, Numeral.ofText?_text long.toPlain.formed]
    · rw [inPrint, Text.signedNumber?_signed short.toPlain, readBack]
    · rw [long.value_eq]
      exact isSome_exponent_numeral printed positive
    · rintro rfl
      exact Token.scan_numeral short.toPlain.formed inPrint
  · rintro counted rfl
    have unsigned : Text.coerce? (printed.double Double.negativeZero) = some 0.0 := by
      decide +kernel
    have zero : (0.0 : Float) ≠ Double.negativeZero := by decide +kernel
    have counted : Value.textNumber (printed.double Double.negativeZero) = _ := counted
    simp only [Value.textNumber, unsigned, Except.ok.injEq] at counted
    exact zero counted
  · intro signed
    show Value.textNumber (printed.double x) = .ok x
    simp only [Value.textNumber, coerce?_double signed]

/-- The least number above one that is printed with a power of ten, and one below zero that is. -/
theorem printed_exactly_and_read_back_power :
    (∃ n : Numeral, (printed.double 1e21).toList = n.text ∧ n.exponent.isSome = true) ∧
      Value.toNumber ⟨#[], #[]⟩ (.text ((Value.number (-1e-7)).toText ⟨#[], #[]⟩)) =
        .ok (-1e-7) := by
  constructor
  · obtain ⟨repr, n, document, text, -, -, -, -, form, -⟩ :=
      (printed_exactly_and_read_back ⟨#[], #[]⟩ 1e21).1 (by decide +kernel) (by decide +kernel)
    have sign : Double.isNegative 1e21 = false := by decide +kernel
    have written : Numeral.ofText? (data.double (1e21 : Float).abs).toList =
        some ⟨['1'], false, [], some ⟨'e', some '+', ['2', '1']⟩⟩ := by decide +kernel
    obtain rfl := Option.some.inj (document.symm.trans written)
    have decimal : (⟨['1'], false, [], some ⟨'e', some '+', ['2', '1']⟩⟩ : Numeral).toDecimal =
        ⟨1, 21⟩ := by decide +kernel
    rw [sign] at text
    refine ⟨n, text, form.2 (.inr ?_)⟩
    rw [decimal]
    norm_num [Decimal.value]
  · exact (printed_exactly_and_read_back _ _).2.2 (by decide +kernel)

end Layout

end YapLang
