import YapLang.Proofs.PrintedNumbers

/-!
# Numbers that are printed as digits alone

A finite number is printed by the shortest decimal that is rounded to it, with a point if that
decimal has a fraction and with an exponent if it reaches `10 ^ 21`. The shortest decimal of a whole
number is a whole number: the search for it begins above the place of the units, and there it ends
at the number itself. The other way round, a whole number is rounded to a whole number. Rounding
keeps the order, so the decimal reaches `10 ^ 21`, which is a double, just when the number does.
Digits alone are therefore what the whole numbers below `10 ^ 21` are printed as, and no others.
-/
namespace YapLang

namespace Double

/-! ### Rounding keeps the order -/

theorem roundQuotient_mono {num num' den : Nat} (le : num ≤ num') :
    roundQuotient num den ≤ roundQuotient num' den := by
  have quotients : num / den ≤ num' / den := Nat.div_le_div_right le
  have parts := Nat.div_add_mod num den
  have parts' := Nat.div_add_mod num' den
  have least : num' / den ≤ roundQuotient num' den := by
    simp only [roundQuotient]
    split
    · exact Nat.le_refl _
    · split <;> omega
  rcases quotients.lt_or_eq with less | same
  · -- rounding up reaches the next whole number at most
    refine Nat.le_trans ?_ least
    simp only [roundQuotient]
    split
    · exact quotients
    · split <;> omega
  -- with the same quotient, it is the remainders that are compared
  · rw [same] at parts
    have rests : num % den ≤ num' % den := by omega
    simp only [roundQuotient, same]
    split
    · exact least
    · split
      · rw [if_neg (by omega), if_pos (by omega)]
      · rw [if_neg (by omega)]
        split <;> omega

/-- Of two numbers, the greater one is not rounded to the smaller double. -/
theorem nearestBits_mono {q r : ℚ} (nonneg : 0 ≤ q) (le : q ≤ r) :
    nearestBits q ≤ nearestBits r := by
  rcases nonneg.eq_or_lt with rfl | positive
  · rw [nearestBits_zero]
    exact Nat.zero_le _
  have positive' : 0 < r := positive.trans_le le
  have orders : Int.log 2 q ≤ Int.log 2 r := Int.log_mono_right positive le
  have places : lastPlace q ≤ lastPlace r := by
    simp only [lastPlace]
    omega
  have least : -1074 ≤ lastPlace q := le_max_right _ _
  obtain ⟨num, den, den_positive, ratio, bits⟩ := exists_nearestBits positive
  obtain ⟨num', den', den_positive', ratio', bits'⟩ := exists_nearestBits positive'
  rw [bits, bits']
  apply min_le_min_right
  rcases places.lt_or_eq with less | same
  · -- a carry reaches the next binade, and there the first bit is set
    have most := (units_bounds positive den_positive ratio).1
    have least' := (units_bounds positive' den_positive' ratio').2 (by omega)
    have next : (lastPlace q + 1074).toNat + 1 ≤ (lastPlace r + 1074).toNat := by omega
    simp only [Nat.pow_eq]
    omega
  · rw [same]
    apply Nat.add_le_add_left
    rw [← roundQuotient_scale den_positive' num den, ← roundQuotient_scale den_positive num' den',
      Nat.mul_comm den' den]
    -- the units are compared over one denominator
    apply roundQuotient_mono
    have den_pos : (0 : ℚ) < den := by exact_mod_cast den_positive
    have den_pos' : (0 : ℚ) < den' := by exact_mod_cast den_positive'
    have ratios : (num : ℚ) / den ≤ num' / den' := by
      rw [ratio, ratio', same]
      gcongr
    rw [div_le_div_iff₀ den_pos den_pos'] at ratios
    have cross : num * den' ≤ num' * den := by exact_mod_cast ratios
    rwa [Nat.mul_comm den' num, Nat.mul_comm den num']

end Double

/-! ### Whole numbers -/

namespace Dyadic

theorem floor_of_nonneg {d : Dyadic} {n : Nat} (exponent : d.exponent = n) :
    d.floor = d.signed * 2 ^ n := by
  rw [floor, if_pos (by omega), exponent, Int.toNat_natCast, Nat.pow_eq, Nat.cast_pow,
    Nat.cast_ofNat]

theorem floor_of_nonpos {d : Dyadic} {n : Nat} (exponent : d.exponent = -(n : Int)) :
    d.floor = d.signed / 2 ^ n := by
  by_cases zero : n = 0
  · subst zero
    simp [floor_of_nonneg (n := 0) (by simpa using exponent)]
  · rw [floor, if_neg (by omega), exponent, Int.neg_neg, Int.toNat_natCast,
      Int.fdiv_eq_ediv_of_nonneg _ (Int.natCast_nonneg _), Nat.pow_eq, Nat.cast_pow, Nat.cast_ofNat]

/-- A dyadic number is an integer if its value is one. -/
theorem toInt?_eq_some_iff {d : Dyadic} (positive : d.negative = false) (k : Int) :
    d.toInt? = some k ↔ (d.significand : ℚ) * 2 ^ d.exponent = k := by
  obtain ⟨negative, significand, exponent⟩ := d
  obtain rfl : negative = false := positive
  by_cases whole : 0 ≤ exponent
  · obtain ⟨n, rfl⟩ := Int.eq_ofNat_of_zero_le whole
    have floor : floor ⟨false, significand, n⟩ = significand * 2 ^ n := floor_of_nonneg rfl
    have ceil : ceil ⟨false, significand, n⟩ = significand * 2 ^ n := by
      rw [Dyadic.ceil, floor_of_nonneg rfl]
      simp [signed]
    rw [toInt?, floor, ceil, if_pos rfl, Option.some.injEq]
    simp only [zpow_natCast]
    exact_mod_cast Iff.rfl
  · obtain ⟨n, rfl⟩ := Int.exists_eq_neg_ofNat (by omega : exponent ≤ 0)
    have unit : (0 : Int) < 2 ^ n := by positivity
    have floor : floor ⟨false, significand, -n⟩ = significand / 2 ^ n := floor_of_nonpos rfl
    have ceil : ceil ⟨false, significand, -n⟩ = -(-significand / 2 ^ n) := by
      rw [Dyadic.ceil, floor_of_nonpos rfl]
      rfl
    -- whole means that the significand is a multiple of the unit
    have scaled : (significand : ℚ) * 2 ^ (-n : Int) = k ↔ (significand : Int) = k * 2 ^ n := by
      rw [zpow_neg, ← div_eq_mul_inv, div_eq_iff (by positivity), zpow_natCast]
      exact_mod_cast Iff.rfl
    rw [scaled, toInt?, floor, ceil]
    generalize (significand : Int) = a
    constructor
    · intro found
      split at found
      next same =>
        cases found
        -- the two remainders are opposite, and neither is negative
        have remainder := Int.emod_nonneg a unit.ne'
        have remainder' := Int.emod_nonneg (-a) unit.ne'
        have parts := Int.emod_add_mul_ediv a (2 ^ n)
        have parts' := Int.emod_add_mul_ediv (-a) (2 ^ n)
        rw [← Int.neg_eq_comm.1 same.symm, Int.mul_neg] at parts'
        rw [Int.mul_comm]
        omega
      · cases found
    · rintro rfl
      rw [← Int.neg_mul, Int.mul_ediv_cancel _ unit.ne', Int.mul_ediv_cancel _ unit.ne',
        Int.neg_neg, if_pos rfl]

end Dyadic

namespace Decimal

/-- A decimal without zeros at its end is a whole number if its exponent is not negative. -/
theorem nonneg_exponent_iff {d : Decimal} (last : d.coefficient % 10 ≠ 0) :
    0 ≤ d.exponent ↔ ∃ n : Nat, d.value = n := by
  constructor
  · intro nonneg
    obtain ⟨n, exponent⟩ := Int.eq_ofNat_of_zero_le nonneg
    refine ⟨d.coefficient * 10 ^ n, ?_⟩
    simp [value, exponent]
  · rintro ⟨n, whole⟩
    by_contra negative
    obtain ⟨k, exponent⟩ : ∃ k : Nat, d.exponent = -(k + 1 : Nat) :=
      ⟨(-d.exponent - 1).toNat, by omega⟩
    rw [value, exponent, zpow_neg, ← div_eq_mul_inv, div_eq_iff (by positivity),
      zpow_natCast] at whole
    -- the coefficient would end in a zero
    have product : d.coefficient = n * 10 ^ (k + 1) := by exact_mod_cast whole
    rw [product, pow_succ, ← Nat.mul_assoc] at last
    simp at last

theorem exponent_of_mem_neighbours {d candidate : Decimal} {grid : Int}
    (member : candidate ∈ d.neighbours grid) : candidate.exponent = grid := by
  unfold neighbours at member
  split at member
  · simp at member
    rcases member with rfl | rfl <;> rfl
  · simp at member
    rcases member with rfl | rfl <;> rfl
  · split at member
    · simp at member
      rcases member with rfl | rfl <;> rfl
    · simp at member
      rcases member with rfl | rfl <;> rfl

/-- On the grid of the whole numbers, a whole number is the first of its neighbours. -/
theorem exists_neighbour {d : Decimal} {n : Nat} (whole : d.value = n) :
    ∃ candidate ∈ d.neighbours 0, candidate.value = d.value := by
  have first : d.onGrid 0 = (n, .lt) := by
    unfold onGrid
    split
    next nonneg =>
      obtain ⟨k, exponent⟩ := Int.eq_ofNat_of_zero_le nonneg
      have product : d.coefficient * 10 ^ k = n := by
        rw [value, exponent, zpow_natCast] at whole
        exact_mod_cast whole
      simp [exponent, product]
    next negative =>
      obtain ⟨k, exponent⟩ := Int.exists_eq_neg_ofNat (by omega : d.exponent ≤ 0)
      have product : d.coefficient = n * 10 ^ k := by
        rw [value, exponent, zpow_neg, ← div_eq_mul_inv, div_eq_iff (by positivity),
          zpow_natCast] at whole
        exact_mod_cast whole
      simp [exponent, product, Nat.compare_eq_lt]
  refine ⟨⟨n, 0⟩, ?_, ?_⟩
  · simp [neighbours, first]
  · rw [whole]
    simp [value]

/-- The search for the shortest decimal of a whole number does not go below the whole numbers. -/
theorem whole_shortestFrom {d : Decimal} {n bits : Nat} (whole : d.value = n)
    (read : d.roundedBits = bits) (fuel : Nat) {grid : Int} (nonneg : 0 ≤ grid) :
    ∃ m : Nat, (shortestFrom d bits fuel grid).value = m := by
  induction fuel generalizing grid with
  | zero => exact ⟨n, whole⟩
  | succ fuel ih =>
    rw [shortestFrom]
    split
    next found candidate =>
      have exponent := exponent_of_mem_neighbours (List.mem_of_find?_eq_some candidate)
      obtain ⟨k, same⟩ := Int.eq_ofNat_of_zero_le (exponent ▸ nonneg : 0 ≤ found.exponent)
      exact ⟨found.coefficient * 10 ^ k, by simp [value, same]⟩
    next none =>
      apply ih
      by_contra below
      -- only on the grid of the whole numbers could the search go on below, but it ends there
      obtain rfl : grid = 0 := by omega
      obtain ⟨candidate, member, same⟩ := exists_neighbour whole
      have fails := List.find?_eq_none.1 none candidate member
      exact fails (by rw [roundedBits_congr same, read]; exact beq_self_eq_true bits)

end Decimal

namespace Double

/-- The number that is read off the bits of a full significand. -/
theorem dyadic?_of_full {m : Nat} {e : Int} (least : -1074 ≤ e) (full : 2 ^ 52 ≤ m)
    (below : m < 2 ^ 53) (finite : (e + 1074).toNat * Nat.pow 2 52 + m < infinityBits) :
    dyadic? (ofMagnitudeBits false ((e + 1074).toNat * Nat.pow 2 52 + m)) = some ⟨false, m, e⟩ := by
  have top := finite
  simp only [infinityBits, Nat.pow_eq] at top
  simp only [dyadic?, magnitudeBits_ofMagnitudeBits finite.le, isNegative_ofMagnitudeBits finite.le,
    Nat.pow_eq]
  rw [if_neg (by omega), if_neg (by omega)]
  congr
  · omega
  · omega

theorem nearestBits_of_full {m : Nat} {e : Int} (least : -1074 ≤ e) (full : 2 ^ 52 ≤ m)
    (below : m < 2 ^ 53) (finite : (e + 1074).toNat * Nat.pow 2 52 + m < infinityBits) :
    nearestBits (m * 2 ^ e) = (e + 1074).toNat * Nat.pow 2 52 + m := by
  rw [nearestBits_of_exact (by omega) least below (.inl full)]
  exact min_eq_left finite.le

/-- A whole number is rounded to a whole number: below `2 ^ 53` it is a double itself, and from
there on all doubles are whole numbers. -/
theorem whole_of_nearestBits {n bits : Nat} (finite : bits < infinityBits)
    (nearest : nearestBits n = bits) {d : Dyadic}
    (found : dyadic? (ofMagnitudeBits false bits) = some d) :
    ∃ k : Nat, (d.significand : ℚ) * 2 ^ d.exponent = k := by
  rcases Nat.eq_zero_or_pos n with rfl | positive
  · rw [Nat.cast_zero, nearestBits_zero] at nearest
    subst nearest
    have zero : dyadic? (ofMagnitudeBits false 0) = some ⟨false, 0, -1074⟩ := by decide
    obtain rfl := Option.some.inj (found.symm.trans zero)
    exact ⟨0, by simp⟩
  by_cases small : n < 2 ^ 53
  · -- shifted up to a full significand, the number is that of a double
    obtain ⟨shift, order⟩ : ∃ shift, n.log2 + shift = 52 :=
      ⟨52 - n.log2, by have := (Nat.log2_lt positive.ne').2 small; omega⟩
    have full : 2 ^ 52 ≤ n * 2 ^ shift := by
      rw [← order, Nat.pow_add]
      exact Nat.mul_le_mul_right _ (Nat.log2_self_le positive.ne')
    have below : n * 2 ^ shift < 2 ^ 53 := by
      rw [show 53 = n.log2 + 1 + shift by omega, Nat.pow_add]
      exact Nat.mul_lt_mul_of_pos_right Nat.lt_log2_self (Nat.two_pow_pos shift)
    have value : ((n * 2 ^ shift : Nat) : ℚ) * 2 ^ (-(shift : Int)) = n := by
      rw [zpow_neg, zpow_natCast, Nat.cast_mul, Nat.cast_pow, Nat.cast_ofNat,
        mul_inv_cancel_right₀ (by positivity)]
    have inRange : (-(shift : Int) + 1074).toNat * Nat.pow 2 52 + n * 2 ^ shift < infinityBits := by
      simp only [infinityBits, Nat.pow_eq]
      omega
    have same := nearestBits_of_full (by omega) full below inRange
    rw [value, nearest] at same
    subst same
    obtain rfl := Option.some.inj (found.symm.trans (dyadic?_of_full (by omega) full below inRange))
    exact ⟨n, value⟩
  · have field : 1076 ≤ bits / Nat.pow 2 52 := by
      -- rounding keeps the order, so the double is not below `2 ^ 53`
      have least : nearestBits ((2 ^ 52 : Nat) * 2 ^ (1 : Int)) ≤ bits := by
        rw [← nearest]
        apply nearestBits_mono (by positivity)
        norm_num
        exact_mod_cast Nat.le_of_not_lt small
      rw [nearestBits_of_full (by omega) (by omega) (by omega) (by decide)] at least
      exact (Nat.le_div_iff_mul_le (Nat.two_pow_pos 52)).2 (Nat.le_trans (by decide) least)
    have whole : 0 ≤ d.exponent := by
      simp only [dyadic?, magnitudeBits_ofMagnitudeBits finite.le] at found
      split at found
      · cases found
      · rw [if_neg (by omega), Option.some.injEq] at found
        rw [← found]
        dsimp only
        omega
    obtain ⟨k, exponent⟩ := Int.eq_ofNat_of_zero_le whole
    exact ⟨d.significand * 2 ^ k, by simp [exponent]⟩

end Double

namespace Decimal

theorem orderAbove_nonneg {significand n : Nat} {exponent : Int} (positive : 0 < n)
    (whole : (significand : ℚ) * 2 ^ exponent = n) : 0 ≤ orderAbove significand exponent := by
  -- a number that is at least one has a bit at or above the place of the units
  have order : 0 < significand.log2 + 1 + exponent := by
    have above : (significand : ℚ) < 2 ^ ((significand.log2 : Int) + 1) := by
      exact_mod_cast Nat.lt_log2_self
    have one : (1 : ℚ) ≤ n := by exact_mod_cast positive
    by_contra small
    apply one.not_gt
    calc (n : ℚ) = significand * 2 ^ exponent := whole.symm
      _ < 2 ^ ((significand.log2 : Int) + 1) * 2 ^ exponent := by gcongr
      _ = 2 ^ ((significand.log2 : Int) + 1 + exponent) := (zpow_add₀ (by norm_num) _ _).symm
      _ ≤ 1 := zpow_le_one_of_nonpos₀ (by norm_num) (by omega)
  rw [orderAbove, Int.fdiv_eq_ediv_of_nonneg _ (by norm_num)]
  omega

/-- The shortest decimal of a double is a whole number if and only if the double is one. -/
theorem whole_shortest_iff {bits : Nat} (nonzero : bits ≠ 0) (finite : bits < Double.infinityBits)
    {d : Dyadic} (found : Double.dyadic? (Double.ofMagnitudeBits false bits) = some d) :
    (∃ n : Nat, (shortest d).value = n) ↔ ∃ k : Nat, (d.significand : ℚ) * 2 ^ d.exponent = k := by
  have read := roundedBits_shortest finite found
  constructor
  · rintro ⟨n, whole⟩
    rw [roundedBits_eq_nearestBits, whole] at read
    exact Double.whole_of_nearestBits finite read found
  · rintro ⟨k, whole⟩
    obtain ⟨same, found', positive, nearest, zero⟩ := Double.exists_dyadic finite
    obtain rfl : d = same := Option.some.inj (found.symm.trans found')
    have significand : d.significand ≠ 0 := fun none => nonzero (zero none)
    have some : 0 < k := by
      have : (0 : ℚ) < k := by rw [← whole]; positivity
      exact_mod_cast this
    rw [shortest, if_neg significand, Double.ofDyadic_eq positive, nearest,
      Double.magnitudeBits_ofMagnitudeBits finite.le]
    refine whole_shortestFrom (n := k) ?_ ?_ 20 (orderAbove_nonneg some whole)
    · rw [value_ofDyadic, whole]
    · rw [roundedBits_eq_nearestBits, value_ofDyadic, nearest]

end Decimal

namespace Layout

theorem point_positional (digits : List Char) (point : Int) :
    (printed.positionalNumeral digits point).point = false ↔ digits.length ≤ point := by
  have plain : printed.wholeMark = "" := rfl
  rw [positionalNumeral]
  split
  · simpa [plain]
  · split
    · simp only [Bool.true_eq_false, false_iff]
      omega
    · simp only [Bool.true_eq_false, false_iff]
      omega

/-- A decimal without zeros at its end is printed as digits alone if it is a whole number below the
powers of ten that are written as such. -/
theorem numeral_digits_iff {d : Decimal} (last : d.coefficient % 10 ≠ 0) :
    ((printed.numeral d).point = false ∧ (printed.numeral d).exponent = none) ↔
      (∃ n : Nat, d.value = n) ∧ d.value < 10 ^ (21 : Int) := by
  have leastPoint : printed.leastPoint = -5 := rfl
  have greatestPoint : printed.greatestPoint = 21 := rfl
  rw [← Decimal.nonneg_exponent_iff last, Decimal.value_lt_iff (by omega), Decimal.point]
  simp only [numeral, leastPoint, greatestPoint]
  split
  · rw [exponent_positional, point_positional]
    simp only [and_true]
    omega
  · simp only [scientificNumeral, reduceCtorEq, and_false, false_iff, not_and]
    omega

end Layout

namespace Double

/-- The bits of `10 ^ 21`, the least power of ten that is printed as one. -/
def powerBits : Nat := (17 + 1074) * Nat.pow 2 52 + 7629394531250000

theorem nearestBits_power : nearestBits (10 ^ (21 : Int)) = powerBits := by
  have exact : (10 : ℚ) ^ (21 : Int) = (7629394531250000 : Nat) * 2 ^ (17 : Int) := by norm_num
  rw [exact, nearestBits_of_full (by omega) (by norm_num) (by norm_num) (by decide)]
  rfl

end Double

namespace Layout

/-- The shortest decimal of a double reaches `10 ^ 21` just when the double does. -/
theorem shortest_lt_power_iff {bits : Nat} (finite : bits < Double.infinityBits) {d : Dyadic}
    (found : Double.dyadic? (Double.ofMagnitudeBits false bits) = some d) :
    (Decimal.shortest d).value < 10 ^ (21 : Int) ↔
      (d.significand : ℚ) * 2 ^ d.exponent < 10 ^ (21 : Int) := by
  obtain ⟨same, found', positive, nearest, -⟩ := Double.exists_dyadic finite
  obtain rfl : d = same := Option.some.inj (found.symm.trans found')
  have read := Decimal.roundedBits_shortest finite found
  rw [Decimal.roundedBits_eq_nearestBits] at read
  have power : Double.dyadic? (Double.ofMagnitudeBits false Double.powerBits) =
      some ⟨false, 7629394531250000, 17⟩ := by decide +kernel
  by_cases isPower : bits = Double.powerBits
  · subst isPower
    obtain rfl := Option.some.inj (found.symm.trans power)
    have short : Decimal.shortest ⟨false, 7629394531250000, 17⟩ = ⟨1, 21⟩ := by decide +kernel
    rw [short]
    norm_num [Decimal.value]
  -- otherwise both lie on the same side of it, as rounding keeps the order
  · have nonneg : 0 ≤ (Decimal.shortest d).value := by
      unfold Decimal.value
      positivity
    constructor
    · intro below
      by_contra reached
      have least := Double.nearestBits_mono (by positivity) (not_lt.1 reached)
      have most := Double.nearestBits_mono nonneg below.le
      rw [nearest, Double.nearestBits_power] at least
      rw [read, Double.nearestBits_power] at most
      omega
    · intro below
      by_contra reached
      have least := Double.nearestBits_mono (by positivity) (not_lt.1 reached)
      have most := Double.nearestBits_mono (by positivity) below.le
      rw [read, Double.nearestBits_power] at least
      rw [nearest, Double.nearestBits_power] at most
      omega

theorem double_eq_magnitude {bits : Nat} (nonzero : bits ≠ 0) (finite : bits < Double.infinityBits)
    {d : Dyadic} (found : Double.dyadic? (Double.ofMagnitudeBits false bits) = some d) :
    printed.double (Double.ofMagnitudeBits false bits) =
      printed.magnitude (Decimal.shortest d).normalize := by
  obtain ⟨same, found', positive, -, -⟩ := Double.exists_dyadic finite
  obtain rfl : d = same := Option.some.inj (found.symm.trans found')
  have coefficient := Decimal.coefficient_shortest nonzero finite found
  simp only [double, found, decimal, if_neg coefficient, positive]
  exact String.empty_append

/-- A finite number that is not negative is printed as digits alone if and only if it is a whole
number below `10 ^ 21`. -/
theorem exists_numeral_digits {bits : Nat} (finite : bits < Double.infinityBits) :
    ∃ n : Numeral, n.Plain ∧
      (printed.double (Double.ofMagnitudeBits false bits)).toList = n.text ∧
      ((n.point = false ∧ n.exponent = none) ↔
        ∃ k, Double.toInt? (Double.ofMagnitudeBits false bits) = some k ∧ k < 10 ^ 21) := by
  by_cases nonzero : bits = 0
  · subst nonzero
    refine ⟨⟨['0'], false, [], none⟩, ⟨by simp, by simp, by simp, by simp, by simp⟩, ?_, ?_⟩
    · rw [double_zero]
      rfl
    · have zero : Double.toInt? (Double.ofMagnitudeBits false 0) = some 0 := by decide +kernel
      simp [zero]
  obtain ⟨d, found, positive, -, -⟩ := Double.exists_dyadic finite
  have last := Decimal.coefficient_normalize (Decimal.coefficient_shortest nonzero finite found)
  have coefficient : (Decimal.shortest d).normalize.coefficient ≠ 0 := by omega
  have prints := @prints_magnitude printed (.inl rfl) _ coefficient
  refine ⟨_, prints.toPlain, ?_, ?_⟩
  · rw [double_eq_magnitude nonzero finite found, prints.text_eq]
  have integer : ∀ k, Double.toInt? (Double.ofMagnitudeBits false bits) = some k ↔
      (d.significand : ℚ) * 2 ^ d.exponent = k := by
    intro k
    rw [Double.toInt?, found, Option.bind_some, Dyadic.toInt?_eq_some_iff positive]
  rw [numeral_digits_iff last, Decimal.value_normalize,
    Decimal.whole_shortest_iff nonzero finite found, shortest_lt_power_iff finite found]
  simp only [integer]
  constructor
  · rintro ⟨⟨k, whole⟩, below⟩
    refine ⟨k, by exact_mod_cast whole, ?_⟩
    rw [whole] at below
    exact_mod_cast below
  · rintro ⟨k, whole, below⟩
    have nonneg : 0 ≤ k := by
      have : (0 : ℚ) ≤ k := by rw [← whole]; positivity
      exact_mod_cast this
    obtain ⟨n, rfl⟩ := Int.eq_ofNat_of_zero_le nonneg
    refine ⟨⟨n, by exact_mod_cast whole⟩, ?_⟩
    rw [whole]
    exact_mod_cast below

end Layout
end YapLang
