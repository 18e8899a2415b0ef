import Mathlib.Algebra.Order.Field.Power
import Mathlib.Algebra.Order.Floor.Semifield
import Mathlib.Data.Int.Log
import Mathlib.Data.Rat.Floor
import Mathlib.Tactic.FieldSimp
import Mathlib.Tactic.Linarith
import Mathlib.Tactic.NormNum
import Mathlib.Tactic.Positivity
import YapLang.Number.Decimal

/-!
# Rounding depends on the value alone

The nearest double is found from a quotient of whole numbers, and a decimal comes to the same
quotient on several ways, some of which skip the division. Here all of them are one function of the
rational number that is rounded: two quotients, or two decimals, of the same value have the same
nearest double. That function is the identity on the values that doubles have, so a double is the
nearest one to itself.
-/
namespace YapLang.Double

/-! ### Whole numbers nearest to a quotient -/

theorem roundQuotient_scale {c : Nat} (positive : 0 < c) (num den : Nat) :
    roundQuotient (c * num) (c * den) = roundQuotient num den := by
  have below : c * (2 * (num % den)) < c * den ↔ 2 * (num % den) < den :=
    Nat.mul_lt_mul_left positive
  have above : c * den < c * (2 * (num % den)) ↔ den < 2 * (num % den) :=
    Nat.mul_lt_mul_left positive
  have twice : 2 * (c * num % (c * den)) = c * (2 * (num % den)) := by
    rw [Nat.mul_mod_mul_left, Nat.mul_left_comm]
  simp only [roundQuotient, twice, Nat.mul_div_mul_left _ _ positive, below, above]

theorem roundQuotient_congr {num den num' den' : Nat} (positive : 0 < den) (positive' : 0 < den')
    (same : num * den' = num' * den) : roundQuotient num den = roundQuotient num' den' := by
  calc roundQuotient num den
      = roundQuotient (den' * num) (den' * den) := (roundQuotient_scale positive' num den).symm
    _ = roundQuotient (den * num') (den * den') := by
      rw [Nat.mul_comm den' num, same, Nat.mul_comm num' den, Nat.mul_comm den' den]
    _ = roundQuotient num' den' := roundQuotient_scale positive num' den'

theorem roundQuotient_mul (n : Nat) {den : Nat} (positive : 0 < den) :
    roundQuotient (n * den) den = n := by
  simp [roundQuotient, Nat.mul_div_cancel _ positive, positive]

theorem le_roundQuotient {n num den : Nat} (positive : 0 < den) (below : n * den ≤ num) :
    n ≤ roundQuotient num den := by
  have quotient : n ≤ num / den := (Nat.le_div_iff_mul_le positive).2 below
  simp only [roundQuotient]
  split
  · exact quotient
  · split <;> omega

theorem roundQuotient_le {n num den : Nat} (positive : 0 < den) (above : num ≤ n * den) :
    roundQuotient num den ≤ n := by
  rcases above.lt_or_eq with less | rfl
  · have quotient : num / den < n := Nat.div_lt_of_lt_mul (Nat.mul_comm n den ▸ less)
    simp only [roundQuotient]
    split
    · exact quotient.le
    · split <;> omega
  · exact (roundQuotient_mul n positive).le

theorem roundQuotient_small {num den : Nat} (below : 2 * num < den) :
    roundQuotient num den = 0 := by
  have less : num < den := by omega
  simp [roundQuotient, Nat.div_eq_of_lt less, Nat.mod_eq_of_lt less, below]

/-! ### The order of magnitude -/

theorem zpow_le_ratio_iff (num : Nat) {den : Nat} (positive : 0 < den) (k : Int) :
    (2 : ℚ) ^ k ≤ (num : ℚ) / den ↔
      if 0 ≤ k then den * Nat.pow 2 k.toNat ≤ num else den ≤ num * Nat.pow 2 (-k).toNat := by
  have den_pos : (0 : ℚ) < den := by exact_mod_cast positive
  rw [le_div_iff₀ den_pos]
  split
  · rename_i nonneg
    obtain ⟨n, rfl⟩ := Int.eq_ofNat_of_zero_le nonneg
    rw [zpow_natCast, mul_comm]
    exact_mod_cast Iff.rfl
  · rename_i negative
    obtain ⟨n, rfl⟩ := Int.exists_eq_neg_ofNat (by omega : k ≤ 0)
    rw [zpow_neg, zpow_natCast, inv_mul_le_iff₀ (by positivity), mul_comm]
    simp only [Int.neg_neg, Int.toNat_natCast]
    exact_mod_cast Iff.rfl

theorem ratio_lt_zpow {num den : Nat} (positive : 0 < den) :
    (num : ℚ) / den < 2 ^ ((num.log2 : Int) - den.log2 + 1) := by
  have den_pos : (0 : ℚ) < den := by exact_mod_cast positive
  have num_lt : (num : ℚ) < 2 ^ (num.log2 + 1) := by exact_mod_cast Nat.lt_log2_self
  have den_ge : (2 : ℚ) ^ den.log2 ≤ den := by
    exact_mod_cast Nat.log2_self_le (Nat.pos_iff_ne_zero.1 positive)
  have split : (2 : ℚ) ^ ((num.log2 : Int) - den.log2 + 1) * 2 ^ den.log2 = 2 ^ (num.log2 + 1) := by
    rw [← zpow_natCast 2 den.log2, ← zpow_add₀ (by norm_num), ← zpow_natCast]
    congr 1
    push_cast
    omega
  rw [div_lt_iff₀ den_pos]
  calc (num : ℚ) < 2 ^ (num.log2 + 1) := num_lt
    _ = 2 ^ ((num.log2 : Int) - den.log2 + 1) * 2 ^ den.log2 := split.symm
    _ ≤ 2 ^ ((num.log2 : Int) - den.log2 + 1) * den := by gcongr

theorem zpow_le_ratio {num den : Nat} (num_positive : 0 < num) (positive : 0 < den) :
    (2 : ℚ) ^ ((num.log2 : Int) - den.log2 - 1) ≤ (num : ℚ) / den := by
  have den_pos : (0 : ℚ) < den := by exact_mod_cast positive
  have den_lt : (den : ℚ) ≤ 2 ^ (den.log2 + 1) := by exact_mod_cast Nat.lt_log2_self.le
  have num_ge : (2 : ℚ) ^ num.log2 ≤ num := by
    exact_mod_cast Nat.log2_self_le (Nat.pos_iff_ne_zero.1 num_positive)
  have split : (2 : ℚ) ^ ((num.log2 : Int) - den.log2 - 1) * 2 ^ (den.log2 + 1) = 2 ^ num.log2 := by
    rw [← zpow_natCast 2 (den.log2 + 1), ← zpow_add₀ (by norm_num), ← zpow_natCast]
    congr 1
    push_cast
    omega
  rw [le_div_iff₀ den_pos]
  calc (2 : ℚ) ^ ((num.log2 : Int) - den.log2 - 1) * den
      ≤ 2 ^ ((num.log2 : Int) - den.log2 - 1) * 2 ^ (den.log2 + 1) := by gcongr
    _ = 2 ^ num.log2 := split
    _ ≤ num := num_ge

/-- The order that is found by comparing is the logarithm of the quotient. -/
theorem binaryOrder_eq_log {num den : Nat} (num_positive : 0 < num) (positive : 0 < den) :
    binaryOrder num den = Int.log 2 ((num : ℚ) / den) := by
  have ratio_pos : 0 < (num : ℚ) / den := by positivity
  -- The logarithms of the parts leave two candidates; the comparison decides between them.
  have upper : Int.log 2 ((num : ℚ) / den) < (num.log2 : Int) - den.log2 + 1 :=
    (Int.lt_zpow_iff_log_lt (by norm_num) ratio_pos).1 (by exact_mod_cast ratio_lt_zpow positive)
  have lower : (num.log2 : Int) - den.log2 - 1 ≤ Int.log 2 ((num : ℚ) / den) :=
    (Int.zpow_le_iff_le_log (by norm_num) ratio_pos).1
      (by exact_mod_cast zpow_le_ratio num_positive positive)
  have reached := (zpow_le_ratio_iff num positive ((num.log2 : Int) - den.log2)).symm.trans
    (show _ ↔ (num.log2 : Int) - den.log2 ≤ Int.log 2 ((num : ℚ) / den) by
      exact_mod_cast Int.zpow_le_iff_le_log (by norm_num : 1 < 2) ratio_pos)
  simp only [binaryOrder, reached]
  split <;> omega

/-! ### The bits of a rational number -/

/-- How many units of a power of two a quotient has, rounded. -/
def unitsAt (num den : Nat) (unit : Int) : Nat :=
  if 0 ≤ unit then roundQuotient num (den * Nat.pow 2 unit.toNat)
  else roundQuotient (num * Nat.pow 2 (-unit).toNat) den

theorem unitsAt_eq (num : Nat) {den : Nat} (positive : 0 < den) (unit : Int) :
    ∃ num' den', 0 < den' ∧ unitsAt num den unit = roundQuotient num' den' ∧
      (num' : ℚ) / den' = num / den / 2 ^ unit := by
  have den_pos : (0 : ℚ) < den := by exact_mod_cast positive
  unfold unitsAt
  split
  · rename_i nonneg
    obtain ⟨n, rfl⟩ := Int.eq_ofNat_of_zero_le nonneg
    refine ⟨num, den * Nat.pow 2 n, by simp [positive], rfl, ?_⟩
    rw [zpow_natCast, div_div, Nat.pow_eq]
    push_cast
    rfl
  · rename_i negative
    obtain ⟨n, rfl⟩ := Int.exists_eq_neg_ofNat (by omega : unit ≤ 0)
    refine ⟨num * Nat.pow 2 n, den, positive, by simp, ?_⟩
    rw [zpow_neg, zpow_natCast, div_inv_eq_mul, div_mul_eq_mul_div, Nat.pow_eq]
    push_cast
    rfl

/-- The exponent of the last place of the double nearest to a number. -/
def lastPlace (q : ℚ) : Int :=
  max (Int.log 2 q - 52) (-1074)

theorem roundedBits_eq {num den : Nat} (num_positive : 0 < num) (positive : 0 < den) :
    roundedBits num den =
      min ((lastPlace ((num : ℚ) / den) + 1074).toNat * Nat.pow 2 52 +
        unitsAt num den (lastPlace ((num : ℚ) / den))) infinityBits := by
  simp only [roundedBits, if_neg (Nat.pos_iff_ne_zero.1 num_positive), unitsAt, lastPlace,
    binaryOrder_eq_log num_positive positive]
  -- otherwise the power is computed
  generalize Nat.pow 2 52 = carry
  rfl

theorem roundedBits_le (num den : Nat) : roundedBits num den ≤ infinityBits := by
  unfold roundedBits
  split
  · exact Nat.zero_le _
  · exact Nat.min_le_right _ _

theorem roundQuotient_congr_ratio {num den num' den' : Nat} (positive : 0 < den)
    (positive' : 0 < den') (same : (num : ℚ) / den = num' / den') :
    roundQuotient num den = roundQuotient num' den' := by
  apply roundQuotient_congr positive positive'
  have cross :=
    (div_eq_div_iff (by exact_mod_cast positive.ne') (by exact_mod_cast positive'.ne')).1
    same
  exact_mod_cast cross

/-- Quotients of the same value have the same nearest double. -/
theorem roundedBits_congr {num den num' den' : Nat} (positive : 0 < den) (positive' : 0 < den')
    (same : (num : ℚ) / den = num' / den') : roundedBits num den = roundedBits num' den' := by
  have den_ne : (den : ℚ) ≠ 0 := by exact_mod_cast positive.ne'
  have den_ne' : (den' : ℚ) ≠ 0 := by exact_mod_cast positive'.ne'
  -- Zero has no order of magnitude and is a case of its own.
  by_cases zero : num = 0
  · have zero' : num' = 0 := by
      subst zero
      simpa [den_ne'] using same.symm
    simp only [zero, zero', roundedBits, if_true]
  · have zero' : num' ≠ 0 := by
      rintro rfl
      simp [den_ne, zero] at same
    -- The last place depends on the value alone; so do the units of it that are rounded.
    rw [roundedBits_eq (Nat.pos_of_ne_zero zero) positive,
      roundedBits_eq (Nat.pos_of_ne_zero zero') positive', ← same]
    obtain ⟨a, b, b_positive, units, value⟩ :=
      unitsAt_eq num positive (lastPlace ((num : ℚ) / den))
    obtain ⟨c, d, d_positive, units', value'⟩ :=
      unitsAt_eq num' positive' (lastPlace ((num : ℚ) / den))
    rw [units, units', roundQuotient_congr_ratio b_positive d_positive]
    rw [value, value', same]

/-- The bits of the magnitude nearest to a number that is not negative. -/
def nearestBits (q : ℚ) : Nat :=
  roundedBits q.num.natAbs q.den

theorem roundedBits_eq_nearestBits (num : Nat) {den : Nat} (positive : 0 < den) :
    roundedBits num den = nearestBits ((num : ℚ) / den) := by
  apply roundedBits_congr positive (Rat.den_pos _)
  have nonneg : 0 ≤ ((num : ℚ) / den).num := Rat.num_nonneg.2 (by positivity)
  rw [Nat.cast_natAbs, abs_of_nonneg nonneg, Rat.num_div_den]

theorem nearestBits_zero : nearestBits 0 = 0 := by
  simp [nearestBits, roundedBits]

/-- A positive number is rounded to whole units of its last place. -/
theorem exists_nearestBits {q : ℚ} (positive : 0 < q) :
    ∃ num den : Nat, 0 < den ∧ (num : ℚ) / den = q / 2 ^ lastPlace q ∧
      nearestBits q =
        min ((lastPlace q + 1074).toNat * Nat.pow 2 52 + roundQuotient num den) infinityBits := by
  have num_positive : 0 < q.num.natAbs := Int.natAbs_pos.2 (Rat.num_pos.2 positive).ne'
  have value : (q.num.natAbs : ℚ) / q.den = q := by
    rw [Nat.cast_natAbs, abs_of_nonneg (Rat.num_pos.2 positive).le, Rat.num_div_den]
  obtain ⟨num, den, den_positive, units, ratio⟩ :=
    unitsAt_eq q.num.natAbs q.den_pos (lastPlace q)
  refine ⟨num, den, den_positive, ratio.trans (by rw [value]), ?_⟩
  rw [nearestBits, roundedBits_eq num_positive q.den_pos, value, units]

theorem lt_zpow_lastPlace {q : ℚ} (positive : 0 < q) : q < 2 ^ (lastPlace q + 53) := by
  have order : Int.log 2 q < lastPlace q + 53 := by
    simp only [lastPlace]
    omega
  exact_mod_cast (Int.lt_zpow_iff_log_lt (by norm_num : 1 < 2) positive).2 order

/-- The units of the last place fill the significand, except in the least place, and overflow it at
most by one. -/
theorem units_bounds {q : ℚ} (positive : 0 < q) {num den : Nat} (den_positive : 0 < den)
    (ratio : (num : ℚ) / den = q / 2 ^ lastPlace q) :
    roundQuotient num den ≤ 2 ^ 53 ∧ (-1074 < lastPlace q → 2 ^ 52 ≤ roundQuotient num den) := by
  have den_pos : (0 : ℚ) < den := by exact_mod_cast den_positive
  constructor
  · apply roundQuotient_le den_positive
    have below : (num : ℚ) / den < 2 ^ 53 := by
      rw [ratio, div_lt_iff₀ (by positivity), ← zpow_natCast, ← zpow_add₀ (by norm_num), add_comm]
      exact_mod_cast lt_zpow_lastPlace positive
    rw [div_lt_iff₀ den_pos] at below
    exact_mod_cast below.le
  · intro normal
    apply le_roundQuotient den_positive
    have order : lastPlace q + 52 ≤ Int.log 2 q := by
      simp only [lastPlace] at normal ⊢
      omega
    have reached : 2 ^ (lastPlace q + 52) ≤ q := by
      exact_mod_cast (Int.zpow_le_iff_le_log (by norm_num : 1 < 2) positive).2 order
    have above : (2 : ℚ) ^ 52 ≤ (num : ℚ) / den := by
      rw [ratio, le_div_iff₀ (by positivity), ← zpow_natCast, ← zpow_add₀ (by norm_num), add_comm]
      exact_mod_cast reached
    rw [le_div_iff₀ den_pos] at above
    exact_mod_cast above

theorem nearestBits_of_small {q : ℚ} (nonneg : 0 ≤ q) (small : q < 2 ^ (-1075 : Int)) :
    nearestBits q = 0 := by
  rcases nonneg.eq_or_lt with rfl | positive
  · exact nearestBits_zero
  have order : Int.log 2 q < -1075 :=
    (Int.lt_zpow_iff_log_lt (by norm_num) positive).1 (by exact_mod_cast small)
  have place : lastPlace q = -1074 := by
    simp only [lastPlace]
    omega
  obtain ⟨num, den, den_positive, ratio, bits⟩ := exists_nearestBits positive
  have den_pos : (0 : ℚ) < den := by exact_mod_cast den_positive
  -- Below the last place there is less than half a unit.
  have half : (num : ℚ) / den < 1 / 2 := by
    calc (num : ℚ) / den = q / 2 ^ (-1074 : Int) := by rw [ratio, place]
      _ < 2 ^ (-1075 : Int) / 2 ^ (-1074 : Int) := by gcongr
      _ = 1 / 2 := by rw [← zpow_sub₀ (by norm_num)]; norm_num
  have below : 2 * num < den := by
    rw [div_lt_div_iff₀ den_pos (by norm_num)] at half
    exact_mod_cast (by linarith : (2 : ℚ) * num < den)
  rw [bits, place, roundQuotient_small below]
  simp

theorem nearestBits_of_large {q : ℚ} (large : 2 ^ (1024 : Int) ≤ q) :
    nearestBits q = infinityBits := by
  have positive : 0 < q := lt_of_lt_of_le (by positivity) large
  have order : 1024 ≤ Int.log 2 q :=
    (Int.zpow_le_iff_le_log (by norm_num) positive).1 (by exact_mod_cast large)
  have place : lastPlace q = Int.log 2 q - 52 := by
    simp only [lastPlace]
    omega
  obtain ⟨num, den, den_positive, ratio, bits⟩ := exists_nearestBits positive
  -- The leading bit alone carries the exponent up to that of infinity.
  have units : 2 ^ 52 ≤ roundQuotient num den :=
    (units_bounds positive den_positive ratio).2 (by omega)
  have carried : 2046 ≤ (lastPlace q + 1074).toNat := by omega
  rw [bits]
  apply min_eq_right
  simp only [infinityBits, Nat.pow_eq]
  omega

/-- The number that a double has is rounded to that double: below the last place there is nothing
to round off. -/
theorem nearestBits_of_exact {significand : Nat} {exponent : Int} (positive : 0 < significand)
    (least : -1074 ≤ exponent) (below : significand < 2 ^ 53)
    (full : 2 ^ 52 ≤ significand ∨ exponent = -1074) :
    nearestBits (significand * 2 ^ exponent) =
      min ((exponent + 1074).toNat * Nat.pow 2 52 + significand) infinityBits := by
  have value_pos : (0 : ℚ) < significand * 2 ^ exponent := by positivity
  have upper : Int.log 2 ((significand : ℚ) * 2 ^ exponent) < exponent + 53 := by
    apply (Int.lt_zpow_iff_log_lt (by norm_num) value_pos).1
    have below' : (significand : ℚ) < 2 ^ (53 : Int) := by exact_mod_cast below
    calc (significand : ℚ) * 2 ^ exponent < 2 ^ (53 : Int) * 2 ^ exponent :=
          mul_lt_mul_of_pos_right below' (by positivity)
      _ = (2 : Nat) ^ (exponent + 53) := by
          rw [← zpow_add₀ (by norm_num), add_comm, Nat.cast_ofNat]
  -- A full significand has its last place at the exponent; a shorter one is at the least place.
  have place : lastPlace ((significand : ℚ) * 2 ^ exponent) = exponent := by
    rcases full with full | rfl
    · have lower : exponent + 52 ≤ Int.log 2 ((significand : ℚ) * 2 ^ exponent) := by
        apply (Int.zpow_le_iff_le_log (by norm_num) value_pos).1
        have full' : (2 : ℚ) ^ (52 : Int) ≤ significand := by exact_mod_cast full
        calc ((2 : Nat) : ℚ) ^ (exponent + 52) = 2 ^ (52 : Int) * 2 ^ exponent := by
              rw [← zpow_add₀ (by norm_num), add_comm, Nat.cast_ofNat]
          _ ≤ significand * 2 ^ exponent := mul_le_mul_of_nonneg_right full' (by positivity)
      simp only [lastPlace]
      omega
    · simp only [lastPlace]
      omega
  obtain ⟨num, den, den_positive, ratio, bits⟩ := exists_nearestBits value_pos
  have whole : (num : ℚ) / den = (significand * den : Nat) / den := by
    have den_ne : (den : ℚ) ≠ 0 := by exact_mod_cast den_positive.ne'
    rw [ratio, place, mul_div_cancel_right₀ _ (by positivity)]
    push_cast
    rw [mul_div_cancel_right₀ _ den_ne]
  rw [bits, place, roundQuotient_congr_ratio den_positive den_positive whole,
    roundQuotient_mul _ den_positive]

end YapLang.Double

namespace YapLang.Decimal

/-- The number that a decimal denotes. -/
def value (d : Decimal) : ℚ :=
  d.coefficient * 10 ^ d.exponent

theorem zpow_two_le_zpow_ten (k : Nat) : (2 : ℚ) ^ (3 * (k : Int)) ≤ 10 ^ (k : Int) := by
  rw [zpow_mul, zpow_natCast, zpow_natCast]
  apply pow_le_pow_left₀ <;> norm_num

/-- Three bits are less than a decimal digit, so they bound the digits that are divided off. -/
theorem value_lt_zpow (d : Decimal) (negative : d.exponent < 0) :
    d.value < 2 ^ ((d.coefficient.log2 : Int) + 1 - 3 * (-d.exponent).toNat) := by
  obtain ⟨k, exponent⟩ := Int.exists_eq_neg_ofNat (by omega : d.exponent ≤ 0)
  have coefficient : (d.coefficient : ℚ) < 2 ^ ((d.coefficient.log2 : Int) + 1) := by
    exact_mod_cast (Nat.lt_log2_self : d.coefficient < 2 ^ (d.coefficient.log2 + 1))
  have power := zpow_two_le_zpow_ten k
  calc d.value = d.coefficient / 10 ^ (k : Int) := by
        rw [value, exponent, zpow_neg, div_eq_mul_inv]
    _ ≤ d.coefficient / 2 ^ (3 * (k : Int)) := by gcongr
    _ < 2 ^ ((d.coefficient.log2 : Int) + 1) / 2 ^ (3 * (k : Int)) := by gcongr
    _ = 2 ^ ((d.coefficient.log2 : Int) + 1 - 3 * (-d.exponent).toNat) := by
        rw [← zpow_sub₀ (by norm_num), exponent, Int.neg_neg, Int.toNat_natCast]

theorem zpow_le_value {d : Decimal} (positive : 0 < d.coefficient) (large : 400 < d.exponent) :
    2 ^ (1024 : Int) ≤ d.value := by
  have coefficient : (1 : ℚ) ≤ d.coefficient := by exact_mod_cast positive
  calc (2 : ℚ) ^ (1024 : Int) ≤ 2 ^ (3 * ((401 : Nat) : Int)) :=
        zpow_le_zpow_right₀ (by norm_num) (by norm_num)
    _ ≤ 10 ^ ((401 : Nat) : Int) := zpow_two_le_zpow_ten 401
    _ ≤ 10 ^ d.exponent := zpow_le_zpow_right₀ (by norm_num) (by omega)
    _ ≤ d.coefficient * 10 ^ d.exponent := le_mul_of_one_le_left (by positivity) coefficient

theorem roundedBits_le (d : Decimal) : d.roundedBits ≤ Double.infinityBits := by
  unfold roundedBits
  repeat' split
  · exact Nat.zero_le _
  · exact Nat.le_refl _
  · exact Double.roundedBits_le _ _
  · exact Nat.zero_le _
  · exact Double.roundedBits_le _ _

/-- The exponents that are settled without a division are settled as the division would. -/
theorem roundedBits_eq_nearestBits (d : Decimal) : d.roundedBits = Double.nearestBits d.value := by
  unfold roundedBits
  split
  · rename_i zero
    simp [value, zero, Double.nearestBits_zero]
  rename_i nonzero
  split
  · rename_i whole
    split
    · rename_i large
      exact (Double.nearestBits_of_large (zpow_le_value (Nat.pos_of_ne_zero nonzero) large)).symm
    · rw [Double.roundedBits_eq_nearestBits _ Nat.one_pos]
      obtain ⟨n, same⟩ := Int.eq_ofNat_of_zero_le whole
      simp [value, same]
  rename_i negative
  split
  · rename_i small
    have below : d.value < 2 ^ (-1075 : Int) :=
      (value_lt_zpow d (by omega)).trans_le (zpow_le_zpow_right₀ (by norm_num) (by omega))
    exact (Double.nearestBits_of_small (by unfold value; positivity) below).symm
  · rw [Double.roundedBits_eq_nearestBits _ (by simp)]
    obtain ⟨n, exponent⟩ := Int.exists_eq_neg_ofNat (by omega : d.exponent ≤ 0)
    simp [value, exponent, div_eq_mul_inv]

/-- Decimals of the same value have the same nearest double. -/
theorem roundedBits_congr {d e : Decimal} (same : d.value = e.value) :
    d.roundedBits = e.roundedBits := by
  rw [roundedBits_eq_nearestBits, roundedBits_eq_nearestBits, same]

theorem value_ofDyadic (significand : Nat) (exponent : Int) :
    (ofDyadic significand exponent).value = significand * 2 ^ exponent := by
  unfold ofDyadic
  split
  · rename_i nonneg
    obtain ⟨n, rfl⟩ := Int.eq_ofNat_of_zero_le nonneg
    simp [value]
  · rename_i negative
    obtain ⟨n, rfl⟩ := Int.exists_eq_neg_ofNat (by omega : exponent ≤ 0)
    -- a power of two that divides is a power of five that multiplies, with ten as their base
    simp only [value, Int.neg_neg, Int.toNat_natCast, zpow_neg, zpow_natCast, Nat.pow_eq]
    push_cast
    rw [show (10 : ℚ) = 5 * 2 by norm_num, mul_pow]
    field_simp

theorem value_stripZeros (fuel : Nat) (d : Decimal) : (stripZeros fuel d).value = d.value := by
  induction fuel generalizing d with
  | zero => rfl
  | succ fuel ih =>
    rw [stripZeros]
    split
    · rename_i divides
      rw [ih]
      have whole : d.coefficient / 10 * 10 = d.coefficient := by omega
      have factor : (d.coefficient : ℚ) = (d.coefficient / 10 : Nat) * 10 := by
        exact_mod_cast whole.symm
      simp only [value]
      rw [zpow_add_one₀ (by norm_num), factor]
      ring
    · rfl

theorem value_normalize (d : Decimal) : d.normalize.value = d.value :=
  value_stripZeros _ d

theorem coefficient_stripZeros {fuel : Nat} {d : Decimal} (positive : d.coefficient ≠ 0)
    (enough : d.coefficient < 2 ^ fuel) : (stripZeros fuel d).coefficient % 10 ≠ 0 := by
  induction fuel generalizing d with
  | zero => omega
  | succ fuel ih =>
    rw [stripZeros]
    split
    · apply ih
      · dsimp only
        omega
      · dsimp only
        omega
    · omega

theorem coefficient_normalize {d : Decimal} (positive : d.coefficient ≠ 0) :
    d.normalize.coefficient % 10 ≠ 0 :=
  coefficient_stripZeros positive Nat.lt_log2_self

end YapLang.Decimal
