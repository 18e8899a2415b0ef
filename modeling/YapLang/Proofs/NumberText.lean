import Mathlib.Data.Bool.AllAny
import YapLang.Number.Layout
import YapLang.Number.Numeral
import YapLang.Proofs.DoubleBits
import YapLang.Proofs.Scanning

/-!
# Printed numbers are read back

A printed number is a numeral: digits, a point with digits after it, or a power of ten. Whatever
does not continue the numeral ends it, and the number that it denotes has the value of the decimal
that was printed, so that a finite double which is not negative is read as itself.
-/
namespace YapLang

namespace Text

/-! ### Where a run of characters ends -/

/-- The first character, if there is one, is not of the class. -/
def Stops (within : Char → Bool) (cs : List Char) : Prop :=
  ∀ c ∈ cs.head?, within c = false

theorem stops_nil (within : Char → Bool) : Stops within [] := by
  intro c first
  cases first

theorem stops_cons {within : Char → Bool} {c : Char} {cs : List Char} :
    Stops within (c :: cs) ↔ within c = false := by
  simp [Stops]

theorem stops_append {within : Char → Bool} {cs rest : List Char} (first : Stops within cs)
    (ends : Stops within rest) : Stops within (cs ++ rest) := by
  cases cs with
  | nil => exact ends
  | cons c cs => exact stops_cons.2 (stops_cons.1 first)

theorem takeWhile_of_stops {within : Char → Bool} {rest : List Char} (ends : Stops within rest) :
    rest.takeWhile within = [] := by
  cases rest with
  | nil => rfl
  | cons c rest => simp [stops_cons.1 ends]

theorem dropWhile_of_stops {within : Char → Bool} {rest : List Char} (ends : Stops within rest) :
    rest.dropWhile within = rest := by
  cases rest with
  | nil => rfl
  | cons c rest => simp [stops_cons.1 ends]

theorem takeWhile_append_of_stops {within : Char → Bool} {run rest : List Char}
    (inside : ∀ c ∈ run, within c = true) (ends : Stops within rest) :
    (run ++ rest).takeWhile within = run := by
  rw [List.takeWhile_append_of_pos inside, takeWhile_of_stops ends, List.append_nil]

theorem dropWhile_append_of_stops {within : Char → Bool} {run rest : List Char}
    (inside : ∀ c ∈ run, within c = true) (ends : Stops within rest) :
    (run ++ rest).dropWhile within = rest := by
  rw [List.dropWhile_append_of_pos inside, dropWhile_of_stops ends]

theorem stops_dropWhile (within : Char → Bool) (cs : List Char) :
    Stops within (cs.dropWhile within) := by
  intro c first
  have no := List.head?_dropWhile_not within cs
  rwa [Option.mem_def.1 first] at no

/-- A run of characters that ends a text does not go on into what follows. -/
theorem run_append {within : Char → Bool} (cs : List Char) {rest : List Char}
    (ends : Stops within rest) :
    (cs ++ rest).takeWhile within = cs.takeWhile within ∧
      (cs ++ rest).dropWhile within = cs.dropWhile within ++ rest := by
  have inside : ∀ c ∈ cs.takeWhile within, within c = true :=
    List.all_eq_true.1 List.all_takeWhile
  have further := stops_append (stops_dropWhile within cs) ends
  have parts : cs ++ rest = cs.takeWhile within ++ (cs.dropWhile within ++ rest) := by
    rw [← List.append_assoc, List.takeWhile_append_dropWhile]
  rw [parts]
  exact ⟨takeWhile_append_of_stops inside further, dropWhile_append_of_stops inside further⟩

/-! ### The digits of a number -/

theorem digit?_of_isDigit {c : Char} (digit : c.isDigit = true) :
    digit? c = some (c.toNat - '0'.toNat) := by
  have range : 0x30 ≤ c.toNat ∧ c.toNat < 0x30 + 10 := by
    obtain ⟨least, greatest⟩ := Char.isDigit_iff_toNat.1 digit
    exact ⟨least, Nat.lt_succ_of_le greatest⟩
  have first : digitZeros.find? (fun base => base ≤ c.toNat && c.toNat < base + 10) =
      some 0x30 := by
    rw [digitZeros, List.find?_cons_of_pos (by simpa using range)]
  rw [digit?, first]
  rfl

theorem isDigit_of_isDigit {c : Char} (digit : c.isDigit = true) : isDigit c = true := by
  rw [isDigit, digit?_of_isDigit digit]
  rfl

theorem digitsValue_eq_ofDigitChars {cs : List Char} (digits : ∀ c ∈ cs, c.isDigit = true) :
    digitsValue cs = Nat.ofDigitChars 10 cs 0 := by
  -- both are folds; the value so far is generalized
  have steps : ∀ (cs : List Char) (value : Nat), (∀ c ∈ cs, c.isDigit = true) →
      cs.foldl (fun value c => 10 * value + (digit? c).getD 0) value =
        Nat.ofDigitChars 10 cs value := by
    intro cs
    induction cs with
    | nil => intro value _; rfl
    | cons c cs ih =>
      intro value digits
      rw [List.foldl_cons, Nat.ofDigitChars_cons, digit?_of_isDigit (digits c (by simp))]
      exact ih _ fun c member => digits c (by simp [member])
  exact steps cs 0 digits

theorem digitsValue_toDigits (n : Nat) : digitsValue (Nat.toDigits 10 n) = n := by
  rw [digitsValue_eq_ofDigitChars fun c => Nat.isDigit_of_mem_toDigits (by decide) (by decide)]
  exact Nat.ofDigitChars_ten_toDigits

theorem digitsValue_append_zeros (cs : List Char) (count : Nat) :
    digitsValue (cs ++ List.replicate count '0') = digitsValue cs * 10 ^ count := by
  have zero : digit? '0' = some 0 := by decide
  induction count with
  | zero => simp
  | succ count ih =>
    rw [List.replicate_succ', ← List.append_assoc, digitsValue, List.foldl_append,
      ← digitsValue, ih]
    simp [zero, Nat.pow_succ]
    ring

theorem digitsValue_zeros_append (count : Nat) (cs : List Char) :
    digitsValue (List.replicate count '0' ++ cs) = digitsValue cs := by
  have zero : digit? '0' = some 0 := by decide
  induction count with
  | zero => rfl
  | succ count ih =>
    rw [← ih]
    simp [digitsValue, List.replicate_succ, zero]

end Text

namespace Numeral

/-! ### Numerals as they are written -/

/-- A mark, perhaps a sign, and digits of any script. -/
structure Exponent.Formed (e : Exponent) : Prop where
  mark : e.mark = 'e' ∨ e.mark = 'E'
  sign : ∀ c ∈ e.sign, c = '+' ∨ c = '-'
  nonempty : e.digits ≠ []
  digits : ∀ c ∈ e.digits, Text.isDigit c = true

/-- The numeral has digits of any script in front of its point or behind it, and behind it only if
there is one. -/
structure Formed (n : Numeral) : Prop where
  nonempty : n.whole ≠ [] ∨ n.fraction ≠ []
  whole : ∀ c ∈ n.whole, Text.isDigit c = true
  fraction : ∀ c ∈ n.fraction, Text.isDigit c = true
  pointless : n.point = false → n.fraction = []
  exponent : ∀ e ∈ n.exponent, e.Formed

/-- The exponent has a sign and ASCII digits. -/
structure Exponent.Plain (e : Exponent) : Prop where
  mark : e.mark = 'e'
  signed : e.sign = some '+' ∨ e.sign = some '-'
  nonempty : e.digits ≠ []
  digits : ∀ c ∈ e.digits, c.isDigit = true

/-- The numeral starts with a digit and has no digits but ASCII ones. -/
structure Plain (n : Numeral) : Prop where
  nonempty : n.whole ≠ []
  whole : ∀ c ∈ n.whole, c.isDigit = true
  fraction : ∀ c ∈ n.fraction, c.isDigit = true
  pointless : n.point = false → n.fraction = []
  exponent : ∀ e ∈ n.exponent, e.Plain

theorem Exponent.Plain.formed {e : Exponent} (plain : e.Plain) : e.Formed := by
  constructor
  · exact .inl plain.mark
  · intro c isSign
    rcases plain.signed with sign | sign
    · exact .inl (Option.some.inj (isSign.symm.trans sign))
    · exact .inr (Option.some.inj (isSign.symm.trans sign))
  · exact plain.nonempty
  · exact fun c member => Text.isDigit_of_isDigit (plain.digits c member)

theorem Plain.formed {n : Numeral} (plain : n.Plain) : n.Formed where
  nonempty := .inl plain.nonempty
  whole c member := Text.isDigit_of_isDigit (plain.whole c member)
  fraction c member := Text.isDigit_of_isDigit (plain.fraction c member)
  pointless := plain.pointless
  exponent e isExponent := (plain.exponent e isExponent).formed

/-- A character that would continue a numeral. -/
def continues (c : Char) : Bool :=
  Text.isDigit c || c == '.' || c == 'e' || c == 'E'

theorem stops_digits {rest : List Char} (ends : Text.Stops continues rest) :
    Text.Stops Text.isDigit rest := by
  intro c first
  have no := ends c first
  simp only [continues, Bool.or_eq_false_iff] at no
  exact no.1.1.1

/-- A character that would continue a numeral which has its point already. -/
def prolongs (c : Char) : Bool :=
  Text.isDigit c || c == 'e' || c == 'E'

theorem stops_prolongs {rest : List Char} (ends : Text.Stops continues rest) :
    Text.Stops prolongs rest := by
  intro c first
  have no := ends c first
  simp only [continues, prolongs, Bool.or_eq_false_iff] at no ⊢
  exact ⟨⟨no.1.1.1, no.1.2⟩, no.2⟩

theorem splitExponent_none {rest : List Char} (ends : Text.Stops prolongs rest) :
    splitExponent rest = (none, rest) := by
  cases rest with
  | nil => rfl
  | cons c rest =>
    have no := Text.stops_cons.1 ends
    simp only [prolongs, Bool.or_eq_false_iff, beq_eq_false_iff_ne] at no
    rw [splitExponent, if_neg (by tauto)]

theorem splitSign_text {e : Exponent} (formed : e.Formed) (rest : List Char) :
    splitSign (e.sign.toList ++ (e.digits ++ rest)) = (e.sign, e.digits ++ rest) := by
  cases sign : e.sign with
  | none =>
    obtain ⟨c, digits, text⟩ := List.exists_cons_of_ne_nil formed.nonempty
    have digit := formed.digits c (by simp [text])
    rw [text]
    exact Text.splitSign_of_head (.inl digit) (digits ++ rest)
  | some c => rcases formed.sign c sign with rfl | rfl <;> rfl

theorem splitExponent_text {e : Exponent} (formed : e.Formed) {rest : List Char}
    (ends : Text.Stops Text.isDigit rest) : splitExponent (e.text ++ rest) = (some e, rest) := by
  have signed := splitSign_text formed rest
  obtain ⟨mark, sign, digits⟩ := e
  obtain ⟨isMark, -, nonempty, inside⟩ := formed
  dsimp only at isMark nonempty inside signed
  have taken := Text.takeWhile_append_of_stops inside ends
  have dropped := Text.dropWhile_append_of_stops inside ends
  simp [Exponent.text, splitExponent, isMark, signed, taken, dropped, nonempty]

theorem splitExponent_exponentText {exponent : Option Exponent}
    (formed : ∀ e ∈ exponent, e.Formed) {rest : List Char} (ends : Text.Stops prolongs rest) :
    splitExponent (exponentText exponent ++ rest) = (exponent, rest) := by
  cases exponent with
  | none => exact splitExponent_none ends
  | some e =>
    refine splitExponent_text (formed e rfl) fun c first => ?_
    have no := ends c first
    simp only [prolongs, Bool.or_eq_false_iff] at no
    exact no.1.1

theorem stops_exponent {e : Exponent} (formed : e.Formed) (rest : List Char) :
    Text.Stops (fun c => Text.isDigit c || c == '.') (e.text ++ rest) := by
  rcases formed.mark with mark | mark
  · have letter : (Text.isDigit 'e' || 'e' == '.') = false := by decide
    rw [Exponent.text, mark]
    exact Text.stops_cons.2 letter
  · have letter : (Text.isDigit 'E' || 'E' == '.') = false := by decide
    rw [Exponent.text, mark]
    exact Text.stops_cons.2 letter

theorem stops_exponentText {exponent : Option Exponent} (formed : ∀ e ∈ exponent, e.Formed)
    {rest : List Char} (ends : Text.Stops continues rest) :
    Text.Stops (fun c => Text.isDigit c || c == '.') (exponentText exponent ++ rest) := by
  cases exponent with
  | none =>
    intro c first
    have no := ends c first
    simp only [continues, Bool.or_eq_false_iff] at no ⊢
    exact no.1.1
  | some e => exact stops_exponent (formed e rfl) rest

/-- A numeral is cut off as a whole wherever nothing prolongs it. A point continues it only if it
has neither a point nor an exponent. -/
theorem split?_text_of_closed {n : Numeral} (formed : n.Formed) {rest : List Char}
    (ends : Text.Stops prolongs rest)
    (closed : n.point = false → n.exponent = none → Text.Stops (· == '.') rest) :
    split? (n.text ++ rest) = some (n, rest) := by
  obtain ⟨whole, point, fraction, exponent⟩ := n
  obtain ⟨nonempty, inside, fractionInside, pointless, exponentFormed⟩ := formed
  dsimp only at nonempty inside fractionInside pointless exponentFormed closed
  have tail : Text.Stops Text.isDigit (exponentText exponent ++ rest) := by
    cases exponent with
    | none =>
      intro c first
      have no := ends c first
      simp only [prolongs, Bool.or_eq_false_iff] at no
      exact no.1.1
    | some e =>
      intro c first
      exact (Bool.or_eq_false_iff.1 (stops_exponent (exponentFormed e rfl) rest c first)).1
  have read := splitExponent_exponentText exponentFormed ends
  cases point with
  | true =>
    have pointStops : Text.Stops Text.isDigit
        ('.' :: (fraction ++ (exponentText exponent ++ rest))) :=
      Text.stops_cons.2 (by decide)
    have some : whole = [] → ¬fraction = [] := fun none => nonempty.resolve_left (by simp [none])
    simp [split?, text, Text.takeWhile_append_of_stops inside pointStops,
      Text.dropWhile_append_of_stops inside pointStops,
      Text.takeWhile_append_of_stops fractionInside tail,
      Text.dropWhile_append_of_stops fractionInside tail, read]
    exact some
  | false =>
    obtain rfl : fraction = [] := pointless rfl
    have nonempty : whole ≠ [] := nonempty.resolve_right (by simp)
    have after : Text.Stops (· == '.') (exponentText exponent ++ rest) := by
      cases exponent with
      | none => exact closed rfl rfl
      | some e =>
        intro c first
        exact (Bool.or_eq_false_iff.1 (stops_exponent (exponentFormed e rfl) rest c first)).2
    -- a point right after the digits would belong to the numeral, but what follows has none
    simp only [split?, text, List.append_assoc, Text.takeWhile_append_of_stops inside tail,
      Text.dropWhile_append_of_stops inside tail, Bool.false_eq_true, if_false, List.nil_append]
    split
    · rename_i more point
      rw [point] at after
      exact absurd (Text.stops_cons.1 after) (by simp)
    · simp [nonempty, read]

theorem split?_text {n : Numeral} (formed : n.Formed) {rest : List Char}
    (ends : Text.Stops continues rest) : split? (n.text ++ rest) = some (n, rest) := by
  refine split?_text_of_closed formed (stops_prolongs ends) fun _ _ c first => ?_
  have no := ends c first
  simp only [continues, Bool.or_eq_false_iff] at no
  exact no.1.1.2

theorem ofText?_text {n : Numeral} (formed : n.Formed) : ofText? n.text = some n := by
  have whole := split?_text formed (Text.stops_nil _)
  rw [List.append_nil] at whole
  rw [ofText?, whole]

/-- The numeral is one that a layout prints: there are no zeros in front of it, its point is
followed by digits, and if the layout marks whole numbers, then it has a point or an exponent. -/
structure PrintedBy (layout : Layout) (n : Numeral) : Prop extends Plain n where
  front : n.whole = ['0'] ∨ n.whole.head? ≠ some '0'
  pointed : n.point = true → n.fraction ≠ []
  marked : layout.wholeMark = "" ∨ n.point = true ∨ n.exponent.isSome = true

end Numeral

namespace Layout

/-- The layout prints the text, which is the numeral and has the value. -/
structure Prints (layout : Layout) (n : Numeral) (text : String) (value : ℚ) : Prop extends
    Numeral.PrintedBy layout n where
  text_eq : text.toList = n.text
  value_eq : n.toDecimal.value = value

theorem isDigit_of_mem_toString {n : Nat} {c : Char} (member : c ∈ (toString n).toList) :
    c.isDigit = true := by
  rw [Nat.toString_eq_ofList_toDigits, String.toList_ofList] at member
  exact Nat.isDigit_of_mem_toDigits (by decide) (by decide) member

theorem toString_ne_nil (n : Nat) : (toString n).toList ≠ [] := by
  rw [Nat.toString_eq_ofList_toDigits, String.toList_ofList]
  exact Nat.toDigits_ne_nil

theorem head_toString {n : Nat} (positive : n ≠ 0) : (toString n).toList.head? ≠ some '0' := by
  rw [Nat.toString_eq_ofList_toDigits, String.toList_ofList]
  induction n using Nat.strongRecOn with
  | _ n ih =>
    rw [Nat.toDigits_eq_if (by decide)]
    split
    next single =>
      have table : ∀ d ∈ List.range 10, d ≠ 0 → [d.digitChar].head? ≠ some '0' := by decide
      exact table n (List.mem_range.2 single) positive
    next more =>
      -- the first digit is that of the number without its last one
      rw [List.head?_append_of_ne_nil _ Nat.toDigits_ne_nil]
      exact ih (n / 10) (by omega) (by omega)

theorem digitsValue_toString (n : Nat) : Text.digitsValue (toString n).toList = n := by
  rw [Nat.toString_eq_ofList_toDigits, String.toList_ofList]
  exact Text.digitsValue_toDigits n

theorem isDigit_of_mem_zeros {count : Nat} {c : Char} (member : c ∈ List.replicate count '0') :
    c.isDigit = true := by
  rw [List.eq_of_mem_replicate member]
  decide

/-- The exponent of a number in the scientific form. -/
def power (layout : Layout) (exponent : Int) : Numeral.Exponent :=
  ⟨'e', some (if exponent < 0 then '-' else '+'),
    (padLeft layout.exponentWidth (toString exponent.natAbs)).toList⟩

theorem plain_power (layout : Layout) (exponent : Int) : (layout.power exponent).Plain := by
  refine ⟨rfl, ?_, ?_, ?_⟩
  · simp only [power]
    split <;> simp
  · simp [power, padLeft]
  · intro c member
    simp only [power, padLeft, String.toList_append, String.toList_ofList] at member
    rcases List.mem_append.1 member with member | member
    · exact isDigit_of_mem_zeros member
    · exact isDigit_of_mem_toString member

theorem value_power (layout : Layout) (exponent : Int) :
    (layout.power exponent).value = exponent := by
  simp only [power, Numeral.Exponent.value, padLeft, String.toList_append, String.toList_ofList,
    Text.digitsValue_zeros_append, digitsValue_toString]
  by_cases negative : exponent < 0
  · simp only [negative, if_true]
    omega
  · rw [if_neg negative, if_neg (by decide)]
    omega

theorem text_power (layout : Layout) (exponent : Int) :
    (layout.power exponent).text =
      'e' :: ((if exponent < 0 then "-" else "+") ++
        padLeft layout.exponentWidth (toString exponent.natAbs)).toList := by
  simp only [power, Numeral.Exponent.text]
  split <;> simp

/-- The numeral of digits with a point at a position. -/
def positionalNumeral (layout : Layout) (digits : List Char) (point : Int) : Numeral :=
  if digits.length ≤ point then
    let whole := digits ++ List.replicate (point.toNat - digits.length) '0'
    if layout.wholeMark = "" then ⟨whole, false, [], none⟩ else ⟨whole, true, ['0'], none⟩
  else if 0 < point then
    ⟨digits.take point.toNat, true, digits.drop point.toNat, none⟩
  else
    ⟨['0'], true, List.replicate (-point).toNat '0' ++ digits, none⟩

/-- The numeral of digits with a point after the first one, and a power of ten. -/
def scientificNumeral (layout : Layout) (digits : List Char) (exponent : Int) : Numeral :=
  ⟨digits.take 1, !(digits.drop 1).isEmpty, digits.drop 1, some (layout.power exponent)⟩

/-- The numeral that a positive decimal is printed as. -/
def numeral (layout : Layout) (d : Decimal) : Numeral :=
  let digits := (toString d.coefficient).toList
  let point := d.exponent + digits.length
  if layout.leastPoint ≤ point ∧ point ≤ layout.greatestPoint then
    layout.positionalNumeral digits point
  else
    layout.scientificNumeral digits (point - 1)

section Digits

variable {digits : List Char} (inside : ∀ c ∈ digits, c.isDigit = true)
  (front : digits.head? ≠ some '0')

include inside front

/-- A whole number: the digits, zeros up to the point, and the mark. -/
theorem prints_whole {layout : Layout} (mark : layout.wholeMark = "" ∨ layout.wholeMark = ".0")
    (nonempty : digits ≠ []) {point : Int} (whole : digits.length ≤ point) :
    layout.Prints (layout.positionalNumeral digits point)
      (String.ofList digits ++ zeros (point.toNat - digits.length) ++ layout.wholeMark)
      (Text.digitsValue digits * 10 ^ (point - digits.length)) := by
  have exponent : point - digits.length = ((point.toNat - digits.length : Nat) : Int) := by
    omega
  have allDigits : ∀ c ∈ digits ++ List.replicate (point.toNat - digits.length) '0',
      c.isDigit = true := by
    intro c member
    rcases List.mem_append.1 member with member | member
    · exact inside c member
    · exact isDigit_of_mem_zeros member
  have noZero : (digits ++ List.replicate (point.toNat - digits.length) '0').head? ≠ some '0' := by
    rwa [List.head?_append_of_ne_nil _ nonempty]
  rw [positionalNumeral, if_pos whole]
  rcases mark with unmarked | marked
  · rw [if_pos unmarked]
    refine ⟨⟨⟨by simp [nonempty], allDigits, by simp, by simp, by simp⟩, .inr noZero, by simp,
        .inl unmarked⟩, ?_, ?_⟩
    · simp [unmarked, zeros, Numeral.text, Numeral.exponentText]
    · simp [Numeral.toDecimal, Decimal.value, Numeral.exponentValue, Text.digitsValue_append_zeros,
        exponent]
  · rw [if_neg (by simp [marked])]
    refine ⟨⟨⟨by simp [nonempty], allDigits, by simp, by simp, by simp⟩, .inr noZero, by simp,
        by simp⟩, ?_, ?_⟩
    · simp [marked, zeros, Numeral.text, Numeral.exponentText]
    · -- the zero after the point is one more zero, and one power of ten less
      have value := Text.digitsValue_append_zeros digits (point.toNat - digits.length + 1)
      rw [List.replicate_succ'] at value
      simp [Numeral.toDecimal, Decimal.value, Numeral.exponentValue, value, exponent, pow_succ,
        mul_assoc]

theorem prints_positional {layout : Layout}
    (mark : layout.wholeMark = "" ∨ layout.wholeMark = ".0") (nonempty : digits ≠ [])
    (point : Int) :
    layout.Prints (layout.positionalNumeral digits point) (layout.positional digits point)
      (Text.digitsValue digits * 10 ^ (point - digits.length)) := by
  unfold positional
  split
  · rename_i whole
    exact prints_whole inside front mark nonempty whole
  · rename_i notWhole
    rw [positionalNumeral, if_neg notWhole]
    split
    -- the point is among the digits
    · rename_i positive
      refine ⟨⟨⟨?_, ?_, ?_, by simp, by simp⟩, .inr ?_, ?_, by simp⟩, ?_, ?_⟩
      · intro none
        rcases List.take_eq_nil_iff.1 none with zero | empty
        · omega
        · exact nonempty empty
      · exact fun c member => inside c (List.mem_of_mem_take member)
      · exact fun c member => inside c (List.mem_of_mem_drop member)
      · rwa [List.head?_take, if_neg (by omega)]
      · intro _ none
        have short := List.drop_eq_nil_iff.1 none
        omega
      · simp [Numeral.text, Numeral.exponentText]
      · have exponent : -((digits.length - point.toNat : Nat) : Int) = point - digits.length := by
          omega
        simp [Numeral.toDecimal, Decimal.value, Numeral.exponentValue, ← exponent]
    -- the point is in front of the digits, with zeros between
    · rename_i notPositive
      refine ⟨⟨⟨by simp, by simp, ?_, by simp, by simp⟩, .inl rfl, by simp [nonempty], by simp⟩,
        ?_, ?_⟩
      · intro c member
        rcases List.mem_append.1 member with member | member
        · exact isDigit_of_mem_zeros member
        · exact inside c member
      · simp [zeros, Numeral.text, Numeral.exponentText]
      · have exponent :
            -(((-point).toNat + digits.length : Nat) : Int) = point - digits.length := by
          omega
        have value := Text.digitsValue_zeros_append ((-point).toNat + 1) digits
        rw [List.replicate_succ, List.cons_append] at value
        simp [Numeral.toDecimal, Decimal.value, Numeral.exponentValue, value, ← exponent]

theorem prints_scientific (layout : Layout) (nonempty : digits ≠ []) (exponent : Int) :
    layout.Prints (layout.scientificNumeral digits exponent) (layout.scientific digits exponent)
      (Text.digitsValue digits * 10 ^ (exponent + 1 - digits.length)) := by
  have power : ∀ e ∈ some (layout.power exponent), e.Plain := by
    rintro e ⟨⟩
    exact plain_power layout exponent
  have text := text_power layout exponent
  have value := value_power layout exponent
  match digits, nonempty with
  | [only], _ =>
    refine ⟨⟨⟨by simp [scientificNumeral], inside, by simp [scientificNumeral],
      by simp [scientificNumeral], power⟩, .inr front, by simp [scientificNumeral],
      by simp [scientificNumeral]⟩, ?_, ?_⟩
    · simp [scientific, scientificNumeral, Numeral.text, Numeral.exponentText, text]
    · simp [scientificNumeral, Numeral.toDecimal, Decimal.value, Numeral.exponentValue, value]
  | first :: second :: rest, _ =>
    refine ⟨⟨⟨by simp [scientificNumeral], ?_, ?_, by simp [scientificNumeral], power⟩, .inr front,
      by simp [scientificNumeral], by simp [scientificNumeral]⟩, ?_, ?_⟩
    · exact fun c member => inside c (List.mem_of_mem_take member)
    · exact fun c member => inside c (List.mem_of_mem_drop member)
    · simp [scientific, scientificNumeral, Numeral.text, Numeral.exponentText, text]
    · have shift : exponent - ((second :: rest).length : Nat) =
          exponent + 1 - ((first :: second :: rest).length : Nat) := by
        simp only [List.length_cons]
        omega
      simp only [scientificNumeral, Numeral.toDecimal, Decimal.value, Numeral.exponentValue, value,
        List.take_append_drop]
      rw [← shift]
      rfl

end Digits

/-- A positive decimal is printed as a numeral of its value. -/
theorem prints_magnitude {layout : Layout}
    (mark : layout.wholeMark = "" ∨ layout.wholeMark = ".0") {d : Decimal}
    (positive : d.coefficient ≠ 0) :
    layout.Prints (layout.numeral d) (layout.magnitude d) d.value := by
  have inside : ∀ c ∈ (toString d.coefficient).toList, c.isDigit = true :=
    fun c => isDigit_of_mem_toString
  have front := head_toString positive
  have nonempty := toString_ne_nil d.coefficient
  have value : d.value = Text.digitsValue (toString d.coefficient).toList * 10 ^ d.exponent := by
    rw [digitsValue_toString, Decimal.value]
  simp only [magnitude, numeral]
  split
  · have printed := prints_positional inside front mark nonempty
      (d.exponent + (toString d.coefficient).toList.length)
    rwa [add_sub_cancel_right, ← value] at printed
  · have printed := prints_scientific inside front layout nonempty
      (d.exponent + (toString d.coefficient).toList.length - 1)
    rwa [sub_add_cancel, add_sub_cancel_right, ← value] at printed

end Layout

/-! ### Tokens -/

namespace Text

theorem mem_digits {c : Char} (digit : c.isDigit = true) : c ∈ "0123456789".toList := by
  obtain ⟨least, greatest⟩ := Char.isDigit_iff_toNat.1 digit
  have range : c.toNat ∈ List.range' 48 10 :=
    List.mem_range'_1.2 ⟨least, Nat.lt_succ_of_le greatest⟩
  -- ten codes are left, and each of them is looked up
  rw [← Char.ofNat_toNat c]
  revert range
  generalize c.toNat = n
  revert n
  decide

theorem trim_eq_self {within : Char → Bool} {cs : List Char}
    (outside : ∀ c ∈ cs, within c = false) :
    trim within cs = cs := by
  have front : ∀ cs : List Char, (∀ c ∈ cs, within c = false) → cs.dropWhile within = cs := by
    intro cs outside
    cases cs with
    | nil => rfl
    | cons c cs => simp [outside c]
  rw [trim, front cs outside, front cs.reverse (by simpa using outside), List.reverse_reverse]

theorem separatorsFit_of_not_mem {within : Char → Bool} {cs : List Char} (none : '_' ∉ cs)
    (before : Option Char) : separatorsFit within before cs = true := by
  induction cs generalizing before with
  | nil => rfl
  | cons c cs ih =>
    rw [separatorsFit]
    · exact ih (fun member => none (List.mem_cons_of_mem c member)) (some c)
    · rintro rfl
      exact none List.mem_cons_self

end Text

namespace Numeral

theorem chars_of_plain {n : Numeral} (plain : n.Plain) {c : Char} (member : c ∈ n.text) :
    c ∈ "0123456789.e+-".toList := by
  have digits : ∀ c : Char, c.isDigit = true → c ∈ "0123456789.e+-".toList := by
    intro c digit
    have within : ∀ c ∈ "0123456789".toList, c ∈ "0123456789.e+-".toList :=
      List.all_iff_forall_prop.1 (by decide)
    exact within c (Text.mem_digits digit)
  simp only [text, List.mem_append] at member
  rcases member with ((member | member) | member) | member
  · exact digits c (plain.whole c member)
  · split at member
    · rw [List.mem_singleton.1 member]
      decide
    · cases member
  · exact digits c (plain.fraction c member)
  · cases power : n.exponent with
    | none => simp [power, exponentText] at member
    | some e =>
      have e_plain := plain.exponent e power
      simp only [power, exponentText, Exponent.text, e_plain.mark, List.mem_cons,
        List.mem_append] at member
      rcases member with rfl | member | member
      · decide
      · rcases e_plain.signed with sign | sign <;> simp [sign] at member <;> simp [member]
      · exact digits c (e_plain.digits c member)

theorem exists_head {n : Numeral} (plain : n.Plain) :
    ∃ first, n.text.head? = some first ∧ first.isDigit = true := by
  cases whole : n.whole with
  | nil => exact absurd whole plain.nonempty
  | cons first more => exact ⟨first, by simp [text, whole], plain.whole first (by simp [whole])⟩

theorem chars_of_formed {n : Numeral} (formed : n.Formed) {c : Char} (member : c ∈ n.text) :
    Text.isDigit c = true ∨ c ∈ ['.', 'e', 'E', '+', '-'] := by
  simp only [text, List.mem_append] at member
  rcases member with ((member | member) | member) | member
  · exact .inl (formed.whole c member)
  · split at member
    · exact .inr (by simp_all)
    · cases member
  · exact .inl (formed.fraction c member)
  · cases power : n.exponent with
    | none => simp [power, exponentText] at member
    | some e =>
      have e_formed := formed.exponent e power
      simp only [power, exponentText, Exponent.text, List.mem_cons, List.mem_append] at member
      rcases member with rfl | member | member
      · rcases e_formed.mark with mark | mark <;> exact .inr (by simp [mark])
      · rcases e_formed.sign c (by simpa using member) with rfl | rfl <;> exact .inr (by simp)
      · exact .inl (e_formed.digits c member)

/-- The token of a numeral, with or without a sign in front, has the value of the numeral. -/
theorem tokenNumber?_signed {n : Numeral} (formed : n.Formed) {sign : Option Char}
    (isSign : ∀ c ∈ sign, c = '+' ∨ c = '-') :
    Text.tokenNumber? (String.ofList (sign.toList ++ n.text)) =
      some (n.toDouble (sign == some '-')) := by
  have noBlank : ∀ c ∈ sign.toList ++ n.text,
      (Text.isBlank c && !Text.isInformationSeparator c) = false := by
    intro c member
    have listed : Text.isDigit c = true ∨ c ∈ ['.', 'e', 'E', '+', '-'] := by
      rcases List.mem_append.1 member with member | member
      · rcases isSign c (by simpa using member) with rfl | rfl <;> exact .inr (by simp)
      · exact chars_of_formed formed member
    have solid : Text.isBlank c = false := by
      rcases listed with digit | listed
      · exact Text.isBlank_of_isDigit digit
      · have none : (['.', 'e', 'E', '+', '-'].all fun c => !Text.isBlank c) = true := by decide
        simpa using List.all_eq_true.1 none c listed
    rw [solid]
    rfl
  have noUnderscore : '_' ∉ n.text := by
    intro member
    rcases chars_of_formed formed member with digit | listed
    · exact absurd digit (by decide)
    · exact absurd listed (by decide)
  -- the text behind the sign is no special word, because it begins with a digit or a point
  have whole := split?_text formed (Text.stops_nil _)
  obtain ⟨first, begins, digit⟩ := head_of_split? whole
  obtain ⟨more, isText⟩ := List.head?_eq_some_iff.1 begins
  have noWord : ∀ word ∈ ["inf", "infinity", "nan"],
      String.ofList (n.text.map Char.toLower) ≠ word := by
    rw [isText]
    exact fun word => Text.lower_ne_word digit more
  have split : splitSign (sign.toList ++ n.text) = (sign, n.text) := by
    cases sign with
    | none =>
      rw [isText]
      exact Text.splitSign_of_head digit more
    | some c => rcases isSign c rfl with rfl | rfl <;> rfl
  have plainText : n.text.filter (fun c => decide (c ≠ '_')) = n.text := by
    rw [List.filter_eq_self]
    intro c member
    exact decide_eq_true fun same => noUnderscore (same ▸ member)
  simp only [Text.tokenNumber?, String.toList_ofList, Text.trim_eq_self noBlank, split]
  rw [if_neg (by
      rintro (inf | infinity)
      · exact noWord _ (by decide) inf
      · exact noWord _ (by decide) infinity),
    if_neg (noWord _ (by decide)), if_pos (Text.separatorsFit_of_not_mem noUnderscore none),
    plainText, ofText?_text formed]
  rfl

theorem tokenNumber?_text {n : Numeral} (formed : n.Formed) :
    Text.tokenNumber? (String.ofList n.text) = some (n.toDouble false) := by
  have noSign : ∀ c ∈ (none : Option Char), c = '+' ∨ c = '-' := by simp
  have signed := tokenNumber?_signed formed noSign
  rw [Option.toList_none, List.nil_append] at signed
  exact signed

end Numeral

/-! ### Doubles -/

/-- Only the bits of zero are those of the decimal zero. -/
theorem Decimal.coefficient_shortest {bits : Nat} (nonzero : bits ≠ 0)
    (finite : bits < Double.infinityBits) {d : Dyadic}
    (found : Double.dyadic? (Double.ofMagnitudeBits false bits) = some d) :
    (Decimal.shortest d).coefficient ≠ 0 := by
  intro zero
  have read := Decimal.roundedBits_shortest finite found
  rw [Decimal.roundedBits, if_pos zero] at read
  exact nonzero read.symm

/-- A finite double other than zero has one decimal, without zeros at its end and read as that
double, that every layout prints. -/
theorem Layout.exists_decimal {bits : Nat} (nonzero : bits ≠ 0)
    (finite : bits < Double.infinityBits) :
    ∃ d : Decimal, d.coefficient % 10 ≠ 0 ∧ d.roundedBits = bits ∧
      ∀ (layout : Layout) (negative : Bool),
        layout.double (Double.ofMagnitudeBits negative bits) =
          signText negative ++ layout.magnitude d := by
  obtain ⟨d, found, positive, -, -⟩ := Double.exists_dyadic finite
  have read := Decimal.roundedBits_shortest finite found
  have coefficient := Decimal.coefficient_shortest nonzero finite found
  refine ⟨(Decimal.shortest d).normalize, Decimal.coefficient_normalize coefficient, ?_, ?_⟩
  · rw [Decimal.roundedBits_congr (Decimal.value_normalize _), read]
  · intro layout negative
    have signed : Double.dyadic? (Double.ofMagnitudeBits negative bits) =
        some { d with negative } := by
      rw [Double.dyadic?_ofMagnitudeBits finite.le, found]
      rfl
    simp only [Layout.double, signed, Layout.decimal, Decimal.shortest_signed]
    rw [if_neg coefficient]

theorem Layout.double_zero (layout : Layout) (negative : Bool) :
    layout.double (Double.ofMagnitudeBits negative 0) =
      signText (negative && layout.signedZero) ++ "0" ++ layout.wholeMark := by
  have zero : Double.dyadic? (Double.ofMagnitudeBits negative 0) = some ⟨negative, 0, -1074⟩ := by
    cases negative <;> decide
  simp only [Layout.double, zero, Decimal.shortest]
  rfl

/-- What a finite double that is not negative is printed as denotes that double. -/
theorem Layout.exists_printed {layout : Layout}
    (mark : layout.wholeMark = "" ∨ layout.wholeMark = ".0") {bits : Nat}
    (finite : bits < Double.infinityBits) :
    ∃ n : Numeral, n.PrintedBy layout ∧
      (layout.double (Double.ofMagnitudeBits false bits)).toList = n.text ∧
      n.toDouble false = Double.ofMagnitudeBits false bits := by
  by_cases zero : bits = 0
  · rw [zero, double_zero]
    rcases mark with unmarked | marked
    · refine ⟨⟨['0'], false, [], none⟩, ⟨⟨by simp, by simp, by simp, by simp, by simp⟩, .inl rfl,
        by simp, .inl unmarked⟩, ?_, rfl⟩
      simp [Layout.signText, unmarked, Numeral.text, Numeral.exponentText]
    · refine ⟨⟨['0'], true, ['0'], none⟩, ⟨⟨by simp, by simp, by simp, by simp, by simp⟩, .inl rfl,
        by simp, by simp⟩, ?_, rfl⟩
      simp [Layout.signText, marked, Numeral.text, Numeral.exponentText]
  · obtain ⟨d, last, read, text⟩ := exists_decimal zero finite
    have prints := prints_magnitude mark (d := d) (by omega)
    refine ⟨_, prints.toPrintedBy, by simp [text, Layout.signText, prints.text_eq], ?_⟩
    -- the numeral and the decimal are different decimals of one value
    rw [Numeral.toDouble, Decimal.toDouble, Decimal.roundedBits_congr prints.value_eq, read]

theorem Layout.exists_numeral {layout : Layout} (plain : layout.wholeMark = "") {bits : Nat}
    (finite : bits < Double.infinityBits) :
    ∃ n : Numeral, n.Plain ∧ (layout.double (Double.ofMagnitudeBits false bits)).toList = n.text ∧
      n.toDouble false = Double.ofMagnitudeBits false bits := by
  obtain ⟨n, printed, text, value⟩ := Layout.exists_printed (.inl plain) finite
  exact ⟨n, printed.toPlain, text, value⟩

theorem Layout.double_infinite (layout : Layout) (negative : Bool) :
    layout.double (Double.ofMagnitudeBits negative Double.infinityBits) =
      Layout.signText negative ++ layout.infinity := by
  have field : Double.dyadic? (Double.ofMagnitudeBits negative Double.infinityBits) = none := by
    rw [Double.dyadic?, Double.magnitudeBits_ofMagnitudeBits le_rfl]
    rfl
  have number : (Double.ofMagnitudeBits negative Double.infinityBits).isNaN = false := by
    cases negative <;> decide
  have words : layout.double (Double.ofMagnitudeBits negative Double.infinityBits) =
      if (Double.ofMagnitudeBits negative Double.infinityBits).isNaN then layout.nan
      else
        Layout.signText (Double.isNegative (Double.ofMagnitudeBits negative Double.infinityBits)) ++
          layout.infinity := by
    rw [Layout.double, field]
  rw [words, number, Double.isNegative_ofMagnitudeBits le_rfl]
  rfl

theorem Layout.double_infinity (layout : Layout) :
    layout.double Double.infinity = layout.infinity := by
  rw [Double.infinity, double_infinite]
  exact String.empty_append

theorem Layout.double_nan (layout : Layout) : layout.double Double.nan = layout.nan := by
  have field : Double.dyadic? Double.nan = none := by decide
  have isNaN : Double.nan.isNaN = true := by decide
  have words : layout.double Double.nan =
      if Double.nan.isNaN then layout.nan
      else Layout.signText (Double.isNegative Double.nan) ++ layout.infinity := by
    rw [Layout.double, field]
  rw [words, isNaN, if_pos rfl]

/-- A negative number is printed as its magnitude with a sign, unless it is zero. -/
theorem Layout.double_negative (layout : Layout) {bits : Nat} (nonzero : bits ≠ 0)
    (number : bits ≤ Double.infinityBits) :
    layout.double (Double.ofMagnitudeBits true bits) =
      "-" ++ layout.double (Double.ofMagnitudeBits false bits) := by
  rcases Nat.lt_or_eq_of_le number with finite | rfl
  · obtain ⟨d, -, -, text⟩ := exists_decimal nonzero finite
    rw [text, text]
    simp [Layout.signText]
  · rw [double_infinite, double_infinite]
    simp [Layout.signText]

end YapLang
