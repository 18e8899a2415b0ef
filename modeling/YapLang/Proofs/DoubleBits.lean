import YapLang.Proofs.Rounding

/-!
# A double is read from its shortest decimal

The bits below the sign that are not above those of infinity determine a double and are determined
by it. The number that they stand for is rounded to them again, and so is the decimal with the
fewest digits: each candidate of the search is tested, and where the search gives up, the decimal is
the number itself.
-/
namespace YapLang.Double

/-! ### Taking a double apart and putting it together -/

section Packing

open Float.Model (Format)
open Float.Model.UnpackedFloat

theorem toNat_unpackSign (b : BitVec 64) :
    (@unpackSign Format.binary64 b).toNat = b.toNat / 2 ^ 63 % 2 ^ 1 := by
  show (b.toNat >>> 63) % 2 ^ 1 = _
  rw [Nat.shiftRight_eq_div_pow]

theorem toNat_unpackExponent (b : BitVec 64) :
    (@unpackExponent Format.binary64 b).toNat = b.toNat / 2 ^ 52 % 2 ^ 11 := by
  show (b.toNat >>> 52) % 2 ^ 11 = _
  rw [Nat.shiftRight_eq_div_pow]

theorem toNat_unpackMantissa (b : BitVec 64) :
    (@unpackMantissa Format.binary64 b).toNat = b.toNat % 2 ^ 52 := by
  show (b.toNat >>> 0) % 2 ^ 52 = _
  rw [Nat.shiftRight_zero]

theorem toNat_packComponents (sign : BitVec 1) (exponent : BitVec 11) (mantissa : BitVec 52) :
    (packComponents Format.binary64 (Sign.ofBitVec sign) exponent mantissa).toNat =
      sign.toNat * 2 ^ 63 + exponent.toNat * 2 ^ 52 + mantissa.toNat := by
  have bits : (Sign.ofBitVec sign).toBitVec = sign := by revert sign; decide
  show ((Sign.ofBitVec sign).toBitVec ++ exponent ++ mantissa).toNat = _
  rw [bits, BitVec.toNat_append, BitVec.toNat_append, ← Nat.shiftLeft_add_eq_or_of_lt mantissa.isLt,
    ← Nat.shiftLeft_add_eq_or_of_lt exponent.isLt, Nat.shiftLeft_eq, Nat.shiftLeft_eq]
  omega

theorem packComponents_parts (b : BitVec 64) :
    packComponents Format.binary64 (Sign.ofBitVec (@unpackSign Format.binary64 b))
      (@unpackExponent Format.binary64 b) (@unpackMantissa Format.binary64 b) = b := by
  apply BitVec.eq_of_toNat_eq
  rw [toNat_packComponents, toNat_unpackSign, toNat_unpackExponent, toNat_unpackMantissa]
  have bound := b.isLt
  omega

/-- A finite number is put together from the places of its mantissa and its biased exponent, which
is the least one unless the mantissa has all its places. -/
theorem pack_finite (sign : Sign) (mantissa : Nat) (exponent : Int) (positive : 0 < mantissa) :
    pack Format.binary64 (.finite sign mantissa exponent positive) =
      if 2 ^ 11 ≤ (exponent + 1023 + 52).toNat + 1 then packedInfinity Format.binary64 sign
      else if mantissa.log2 + 1 = 53 then
        packComponents Format.binary64 sign (BitVec.ofNat 11 (exponent + 1023 + 52).toNat)
          (BitVec.ofNat 52 mantissa)
      else packComponents Format.binary64 sign 0#11 (BitVec.ofNat 52 mantissa) := rfl

theorem pack_subnormal (sign : Sign) (mantissa : BitVec 52) (positive : 0 < mantissa.toNat) :
    pack Format.binary64 (.finite sign mantissa.toNat (-1074) positive) =
      packComponents Format.binary64 sign 0#11 mantissa := by
  have short : mantissa.toNat.log2 < 52 :=
    (Nat.log2_lt (Nat.pos_iff_ne_zero.1 positive)).2 mantissa.isLt
  rw [pack_finite, if_neg (by decide), if_neg (by omega), BitVec.ofNat_toNat, BitVec.setWidth_eq]

theorem pack_normal (sign : Sign) (exponent : BitVec 11) (mantissa : BitVec 52)
    (finite : exponent ≠ -1#11) (positive : 0 < (1#1 ++ mantissa).toNat) :
    pack Format.binary64
        (.finite sign (1#1 ++ mantissa).toNat ((exponent.toNat : Int) - 1075) positive) =
      packComponents Format.binary64 sign exponent mantissa := by
  have bound := mantissa.isLt
  have value : (1#1 ++ mantissa).toNat = 2 ^ 52 + mantissa.toNat := by
    rw [BitVec.toNat_append, ← Nat.shiftLeft_add_eq_or_of_lt mantissa.isLt]
    rfl
  have long : (1#1 ++ mantissa).toNat.log2 = 52 := by
    rw [Nat.log2_eq_iff (Nat.pos_iff_ne_zero.1 positive)]
    omega
  have biased : (exponent.toNat : Int) - 1075 + 1023 + 52 = exponent.toNat := by omega
  have room : ¬2 ^ 11 ≤ exponent.toNat + 1 := by
    have bound := exponent.isLt
    have below : exponent.toNat ≠ 2047 := fun full => finite (BitVec.eq_of_toNat_eq full)
    omega
  have places : BitVec.ofNat 52 (1#1 ++ mantissa).toNat = mantissa := by
    apply BitVec.eq_of_toNat_eq
    rw [BitVec.toNat_ofNat, value]
    omega
  rw [pack_finite, biased, Int.toNat_natCast, if_neg room, if_pos (by rw [long]), places,
    BitVec.ofNat_toNat, BitVec.setWidth_eq]

/-- A number taken apart is known up to its sign: negation and the absolute value change nothing
else, and the three fields of its bits make the number with any sign. -/
theorem exists_signed {b : BitVec 64}
    (number : @unpackExponent Format.binary64 b = -1#11 →
      @unpackMantissa Format.binary64 b = 0#52) :
    ∃ f : Sign → Float.Model.UnpackedFloat,
      unpack Format.binary64 b = f (Sign.ofBitVec (@unpackSign Format.binary64 b)) ∧
      (∀ sign, (f sign).neg = f (-sign) ∧ (f sign).abs = f .positive) ∧
      ∀ sign, pack Format.binary64 (f sign) =
        packComponents Format.binary64 sign (@unpackExponent Format.binary64 b)
          (@unpackMantissa Format.binary64 b) := by
  -- the largest exponent is that of infinity, the least one that of zero and of subnormal numbers
  by_cases top : @unpackExponent Format.binary64 b = -1#11
  · refine ⟨.infinity, (if_pos top).trans (if_pos (number top)), fun _ => ⟨rfl, rfl⟩, fun _ => ?_⟩
    rw [top, number top]
    rfl
  by_cases bottom : @unpackExponent Format.binary64 b = 0#11
  · by_cases zero : @unpackMantissa Format.binary64 b = 0#52
    · refine ⟨.zero, (if_neg top).trans ((if_pos bottom).trans (dif_pos zero)),
        fun _ => ⟨rfl, rfl⟩, fun _ => ?_⟩
      rw [bottom, zero]
      rfl
    · refine ⟨fun sign => .finite sign _ _ _,
        (if_neg top).trans ((if_pos bottom).trans (dif_neg zero)), fun _ => ⟨rfl, rfl⟩,
        fun sign => ?_⟩
      rw [bottom]
      exact pack_subnormal sign _ _
  · exact ⟨fun sign => .finite sign _ _ _, (if_neg top).trans (if_neg bottom),
      fun _ => ⟨rfl, rfl⟩, fun sign => pack_normal sign _ _ top _⟩

theorem pack_unpack {b : BitVec 64}
    (number : @unpackExponent Format.binary64 b = -1#11 →
      @unpackMantissa Format.binary64 b = 0#52) :
    pack Format.binary64 (unpack Format.binary64 b) = b := by
  obtain ⟨f, unpacked, -, packed⟩ := exists_signed number
  rw [unpacked, packed, packComponents_parts]

/-- Bits that are not above those of infinity, whatever their sign, are those of a number. -/
theorem number_ofNat {n : Nat} (small : n < 2 ^ 64) (number : n % signBit ≤ infinityBits) :
    @unpackExponent Format.binary64 (BitVec.ofNat 64 n) = -1#11 →
      @unpackMantissa Format.binary64 (BitVec.ofNat 64 n) = 0#52 := by
  -- with the exponent of infinity and no more bits than infinity, no bit of the mantissa is left
  intro top
  have toNat : (BitVec.ofNat 64 n).toNat = n := Nat.mod_eq_of_lt small
  have field := congrArg BitVec.toNat top
  rw [toNat_unpackExponent, toNat] at field
  apply BitVec.eq_of_toNat_eq
  rw [toNat_unpackMantissa, toNat]
  simp only [infinityBits, signBit, Nat.pow_eq] at number
  simp at field ⊢
  omega

end Packing

theorem eq_of_toBits {x y : Float} (same : x.toBits = y.toBits) : x = y := by
  obtain ⟨⟨_, _⟩⟩ := x
  obtain ⟨⟨_, _⟩⟩ := y
  cases same
  rfl

/-- The bits of a double with the given sign and magnitude. -/
def signedBits (negative : Bool) (bits : Nat) : Nat :=
  if negative then signBit + bits else bits

section

variable {bits : Nat} (number : bits ≤ infinityBits) {negative : Bool}
include number

theorem signedBits_lt : signedBits negative bits < 2 ^ 64 := by
  cases negative <;> simp [signedBits, signBit, infinityBits] at * <;> omega

theorem signedBits_mod : signedBits negative bits % signBit = bits := by
  cases negative <;> simp [signedBits, signBit, infinityBits] at * <;> omega

theorem toBits_ofMagnitudeBits :
    (ofMagnitudeBits negative bits).toBits.toNat = signedBits negative bits := by
  have small : signedBits negative bits < 2 ^ 64 := signedBits_lt number
  have toNat : (BitVec.ofNat 64 (signedBits negative bits)).toNat = signedBits negative bits :=
    Nat.mod_eq_of_lt small
  have same := pack_unpack (number_ofNat small (by rwa [signedBits_mod number]))
  calc (ofMagnitudeBits negative bits).toBits.toNat
      = (Float.Model.UnpackedFloat.pack Float.Model.Format.binary64
          (Float.Model.UnpackedFloat.unpack Float.Model.Format.binary64
            (BitVec.ofNat 64 (signedBits negative bits)))).toNat := rfl
    _ = signedBits negative bits := by rw [same, toNat]

theorem magnitudeBits_ofMagnitudeBits : magnitudeBits (ofMagnitudeBits negative bits) = bits := by
  rw [magnitudeBits, toBits_ofMagnitudeBits number, signedBits_mod number]

theorem isNegative_ofMagnitudeBits : isNegative (ofMagnitudeBits negative bits) = negative := by
  rw [isNegative, toBits_ofMagnitudeBits number]
  cases negative <;> simp [signedBits, signBit, infinityBits] at *
  omega

open Float.Model (Format) in
open Float.Model.UnpackedFloat in
/-- The fields of the bits: the sign is the first one, and the others do not depend on it. -/
theorem fields_signedBits :
    @unpackSign Format.binary64 (BitVec.ofNat 64 (signedBits negative bits)) =
        BitVec.ofBool negative ∧
      @unpackExponent Format.binary64 (BitVec.ofNat 64 (signedBits negative bits)) =
        BitVec.ofNat 11 (bits / 2 ^ 52) ∧
      @unpackMantissa Format.binary64 (BitVec.ofNat 64 (signedBits negative bits)) =
        BitVec.ofNat 52 bits := by
  have toNat : (BitVec.ofNat 64 (signedBits negative bits)).toNat = signedBits negative bits :=
    Nat.mod_eq_of_lt (signedBits_lt number)
  refine ⟨?_, ?_, ?_⟩
  all_goals
    apply BitVec.eq_of_toNat_eq
    simp only [toNat_unpackSign, toNat_unpackExponent, toNat_unpackMantissa, toNat]
    cases negative <;> simp [signedBits, signBit, infinityBits] at * <;> omega

open Float.Model (Format) in
open Float.Model.UnpackedFloat in
/-- An operation that changes the sign and nothing else gives the bits with the new sign. -/
theorem pack_resigned {g : Float.Model.UnpackedFloat → Float.Model.UnpackedFloat} {result : Bool}
    (resigns : ∀ f : Sign → Float.Model.UnpackedFloat,
      (∀ sign, (f sign).neg = f (-sign) ∧ (f sign).abs = f .positive) →
        g (f (Sign.ofBitVec (BitVec.ofBool negative))) = f (Sign.ofBitVec (BitVec.ofBool result))) :
    pack Format.binary64 (g (unpack Format.binary64 (pack Format.binary64
        (unpack Format.binary64 (BitVec.ofNat 64 (signedBits negative bits)))))) =
      (ofMagnitudeBits result bits).toBits.toBitVec := by
  have isNumber (negative : Bool) := number_ofNat (@signedBits_lt _ number negative)
    (by rwa [signedBits_mod number])
  obtain ⟨f, unpacked, signs, packed⟩ := exists_signed (isNumber negative)
  obtain ⟨sign, exponent, mantissa⟩ := @fields_signedBits _ number negative
  obtain ⟨sign', exponent', mantissa'⟩ := @fields_signedBits _ number result
  have parts := packComponents_parts (BitVec.ofNat 64 (signedBits result bits))
  rw [sign', exponent', mantissa'] at parts
  rw [pack_unpack (isNumber negative), unpacked, sign, resigns f signs, packed, exponent, mantissa,
    parts]
  exact (pack_unpack (isNumber result)).symm

/-- Negation changes the sign and nothing else. -/
theorem neg_ofMagnitudeBits :
    -ofMagnitudeBits negative bits = ofMagnitudeBits (!negative) bits := by
  apply eq_of_toBits
  apply UInt64.eq_of_toBitVec_eq
  apply pack_resigned number
  intro f signs
  rw [(signs _).1]
  cases negative <;> rfl

/-- The absolute value drops the sign and nothing else. -/
theorem abs_ofMagnitudeBits :
    (ofMagnitudeBits negative bits).abs = ofMagnitudeBits false bits := by
  apply eq_of_toBits
  apply UInt64.eq_of_toBitVec_eq
  apply pack_resigned number
  intro f signs
  exact (signs _).2

end

open Float.Model (Format) in
open Float.Model.UnpackedFloat in
/-- A double is a number with a sign and a magnitude, or it is not a number at all. -/
theorem exists_ofMagnitudeBits (x : Float) :
    x = nan ∨ ∃ negative bits, bits ≤ infinityBits ∧ x = ofMagnitudeBits negative bits := by
  by_cases number : @unpackExponent Format.binary64 x.toBits.toBitVec = -1#11 →
      @unpackMantissa Format.binary64 x.toBits.toBitVec = 0#52
  · right
    have small : x.toBits.toNat < 2 ^ 64 := x.toBits.toNat_lt
    have magnitude : magnitudeBits x ≤ infinityBits := by
      by_contra above
      simp only [magnitudeBits, signBit, infinityBits, Nat.pow_eq] at above
      -- above the bits of infinity the exponent is the largest one and the mantissa is not zero
      have top : @unpackExponent Format.binary64 x.toBits.toBitVec = -1#11 := by
        apply BitVec.eq_of_toNat_eq
        rw [toNat_unpackExponent, UInt64.toNat_toBitVec]
        simp
        omega
      have bottom := congrArg BitVec.toNat (number top)
      rw [toNat_unpackMantissa, UInt64.toNat_toBitVec] at bottom
      simp at bottom
      omega
    refine ⟨isNegative x, magnitudeBits x, magnitude, ?_⟩
    apply eq_of_toBits
    apply UInt64.toNat_inj.1
    rw [toBits_ofMagnitudeBits magnitude]
    cases sign : isNegative x with
    | false =>
      have below := of_decide_eq_false sign
      simp [signedBits, magnitudeBits, signBit] at below ⊢
      omega
    | true =>
      have above := of_decide_eq_true sign
      simp [signedBits, magnitudeBits, signBit] at above ⊢
      omega
  · left
    obtain ⟨top, mantissa⟩ := Classical.not_imp.1 number
    apply eq_of_toBits
    apply UInt64.eq_of_toBitVec_eq
    have canonical : nan.toBits.toBitVec = packedNaN Format.binary64 := by decide
    rw [canonical]
    exact x.toModel.valid.eq_packedNaN top mantissa

/-! ### The number that a finite double has -/

/-- The bits of a finite double are those of the number that is read off them. -/
theorem exists_dyadic {bits : Nat} (finite : bits < infinityBits) :
    ∃ d : Dyadic, dyadic? (ofMagnitudeBits false bits) = some d ∧ d.negative = false ∧
      nearestBits (d.significand * 2 ^ d.exponent) = bits ∧ (d.significand = 0 → bits = 0) := by
  have below : bits < 2047 * 2 ^ 52 := by simpa only [infinityBits, Nat.pow_eq] using finite
  have fraction : bits % 2 ^ 52 < 2 ^ 52 := Nat.mod_lt _ (by norm_num)
  have parts : 2 ^ 52 * (bits / 2 ^ 52) + bits % 2 ^ 52 = bits := Nat.div_add_mod bits (2 ^ 52)
  simp only [dyadic?, magnitudeBits_ofMagnitudeBits finite.le, isNegative_ofMagnitudeBits finite.le,
    Nat.pow_eq]
  rw [if_neg (by omega)]
  split
  -- without an exponent field, the significand is the fraction alone and may be zero
  · refine ⟨_, rfl, rfl, ?_, by dsimp only; omega⟩
    dsimp only
    by_cases zero : bits % 2 ^ 52 = 0
    · rw [zero, Nat.cast_zero, zero_mul, nearestBits_zero]
      omega
    · rw [nearestBits_of_exact (by omega) (by norm_num) (by omega) (.inr rfl)]
      simp only [infinityBits, Nat.pow_eq]
      omega
  · refine ⟨_, rfl, rfl, ?_, by dsimp only; omega⟩
    dsimp only
    rw [nearestBits_of_exact (by omega) (by omega) (by omega) (.inl (by omega))]
    simp only [infinityBits, Nat.pow_eq]
    omega

/-- The sign of a double is that of its number. -/
theorem dyadic?_ofMagnitudeBits {bits : Nat} (number : bits ≤ infinityBits) (negative : Bool) :
    dyadic? (ofMagnitudeBits negative bits) =
      (dyadic? (ofMagnitudeBits false bits)).map fun d => { d with negative } := by
  simp only [dyadic?, magnitudeBits_ofMagnitudeBits number, isNegative_ofMagnitudeBits number]
  split
  · rfl
  · split <;> rfl

theorem ofDyadic_eq {d : Dyadic} (positive : d.negative = false) :
    ofDyadic d = ofMagnitudeBits false (nearestBits (d.significand * 2 ^ d.exponent)) := by
  unfold ofDyadic ofRatio
  rw [positive]
  split
  · rename_i nonneg
    rw [roundedBits_eq_nearestBits _ Nat.one_pos]
    obtain ⟨n, same⟩ := Int.eq_ofNat_of_zero_le nonneg
    simp [same]
  · rename_i negative
    rw [roundedBits_eq_nearestBits _ (by simp)]
    obtain ⟨n, exponent⟩ := Int.exists_eq_neg_ofNat (by omega : d.exponent ≤ 0)
    simp [exponent, div_eq_mul_inv]

end YapLang.Double

namespace YapLang.Decimal

theorem roundedBits_shortestFrom {d : Decimal} {bits : Nat} (exact : d.roundedBits = bits)
    (fuel : Nat) (grid : Int) : (shortestFrom d bits fuel grid).roundedBits = bits := by
  induction fuel generalizing grid with
  | zero => exact exact
  | succ fuel ih =>
    rw [shortestFrom]
    split
    · rename_i found candidate
      -- only a decimal that is rounded to these bits is found
      have tested := List.find?_some candidate
      exact beq_iff_eq.1 tested
    · exact ih (grid - 1)

/-- The shortest decimal is that of the magnitude. -/
theorem shortest_signed (d : Dyadic) (negative : Bool) :
    shortest { d with negative } = shortest d := by
  have magnitude (num den : Nat) (negative : Bool) :
      Double.magnitudeBits (Double.ofRatio negative num den) = Double.roundedBits num den :=
    Double.magnitudeBits_ofMagnitudeBits (Double.roundedBits_le num den)
  have same : Double.magnitudeBits (Double.ofDyadic { d with negative }) =
      Double.magnitudeBits (Double.ofDyadic d) := by
    simp only [Double.ofDyadic]
    split <;> rw [magnitude, magnitude]
  simp only [shortest, same]

/-- The decimal that is written for a finite double is read as that double. -/
theorem roundedBits_shortest {bits : Nat} (finite : bits < Double.infinityBits) {d : Dyadic}
    (number : Double.dyadic? (Double.ofMagnitudeBits false bits) = some d) :
    (shortest d).roundedBits = bits := by
  obtain ⟨same, found, positive, nearest, zero⟩ := Double.exists_dyadic finite
  obtain rfl : d = same := Option.some.inj (number.symm.trans found)
  unfold shortest
  split
  · rename_i none
    rw [zero none]
    rfl
  · rw [Double.ofDyadic_eq positive, nearest, Double.magnitudeBits_ofMagnitudeBits finite.le]
    apply roundedBits_shortestFrom
    rw [roundedBits_eq_nearestBits, value_ofDyadic, nearest]

end YapLang.Decimal
