import Mathlib
import Templating.Number.Binary
/-!
# Counts as numbers

A count below `2 ^ 53` is a number exactly, and is found again as its whole
part.
-/
set_option autoImplicit false

namespace Templating.Number

open Float.Model

theorem unpackExponent_toNat {bits : Nat} (small : bits < twoTo 63) :
    (@UnpackedFloat.unpackExponent Format.binary64 (UInt64.ofNat bits).toBitVec).toNat =
      bits / twoTo 52 := by
  have whole : bits % 2 ^ 64 = bits := Nat.mod_eq_of_lt (small.trans (by decide))
  have below : bits / 2 ^ 52 < 2 ^ 11 := by
    rw [Nat.div_lt_iff_lt_mul (by decide)]
    exact small
  simp only [UnpackedFloat.unpackExponent, BitVec.toNat_cast, BitVec.extractLsb_toNat,
    UInt64.toNat_toBitVec, UInt64.toNat_ofNat', whole, Nat.shiftRight_eq_div_pow]
  exact Nat.mod_eq_of_lt below

theorem unpackExponent_finite {bits : Nat} (finite : bits < infinityBits) :
    @UnpackedFloat.unpackExponent Format.binary64 (UInt64.ofNat bits).toBitVec ≠
      -(BitVec.ofNat Format.binary64.exponentBits 1) := by
  intro same
  have exponent := unpackExponent_toNat (finite.trans (by decide))
  rw [same] at exponent
  have most : bits / twoTo 52 < 2047 := by
    rw [Nat.div_lt_iff_lt_mul (by decide)]
    exact finite
  have ones : (-(BitVec.ofNat Format.binary64.exponentBits 1)).toNat = 2047 := by decide
  omega

theorem unpackSign_positive {bits : Nat} (small : bits < twoTo 63) :
    @UnpackedFloat.unpackSign Format.binary64 (UInt64.ofNat bits).toBitVec = 0#1 := by
  have whole : bits % 2 ^ 64 = bits := Nat.mod_eq_of_lt (small.trans (by decide))
  have none : bits / 2 ^ 63 = 0 := Nat.div_eq_of_lt small
  apply BitVec.eq_of_toNat_eq
  simp only [UnpackedFloat.unpackSign, BitVec.toNat_cast, BitVec.extractLsb_toNat,
    UInt64.toNat_toBitVec, UInt64.toNat_ofNat', whole, Nat.shiftRight_eq_div_pow]
  have top : Format.binary64.mantissaBitsWithoutImplicit + Format.binary64.exponentBits = 63 := rfl
  rw [top, none]
  rfl

theorem toBitVec_ofFields {bits : Nat} (finite : bits < infinityBits) :
    (ofFields false bits).toBits.toBitVec = (UInt64.ofNat bits).toBitVec := by
  have number : @UnpackedFloat.isNaNBits Format.binary64 (UInt64.ofNat bits).toBitVec =
      false := by
    rw [UnpackedFloat.isNaNBits, decide_eq_false_iff_not]
    exact fun both => unpackExponent_finite finite both.1
  have packed := @UnpackedFloat.pack_unpack Format.binary64 (UInt64.ofNat bits).toBitVec
  rw [number] at packed
  simp only [Bool.false_eq_true, if_false] at packed
  exact packed

theorem toBits_ofFields {bits : Nat} (finite : bits < infinityBits) :
    (ofFields false bits).toBits.toNat = bits := by
  have small : bits < 2 ^ 64 := finite.trans (by decide)
  rw [← UInt64.toNat_toBitVec, toBitVec_ofFields finite, UInt64.toNat_toBitVec, UInt64.toNat_ofNat']
  exact Nat.mod_eq_of_lt small

theorem ofFields_nonneg {bits : Nat} (finite : bits < infinityBits) : 0 ≤ ofFields false bits := by
  have sign := unpackSign_positive (finite.trans (by decide))
  have exponent := unpackExponent_finite finite
  have unpacked : (ofFields false bits).toModel.unpack =
      UnpackedFloat.unpack Format.binary64 (UInt64.ofNat bits).toBitVec :=
    congrArg (UnpackedFloat.unpack Format.binary64) (toBitVec_ofFields finite)
  have zero : (0 : Float).toModel.unpack = .zero .positive := by rfl
  have below : ((0 : Float).toModel.unpack.le (ofFields false bits).toModel.unpack) = true := by
    rw [zero, unpacked]
    unfold UnpackedFloat.unpack
    simp only [sign, if_neg exponent]
    split
    · split <;> rfl
    · rfl
  have ordered : (0 : Float).toModel ≤ (ofFields false bits).toModel := below
  exact decide_eq_true ordered

/-! ## Whole numbers -/

section Counts

variable {count : Nat}

/-- The leading bit of a count below `2 ^ 53` is moved to place 52. -/
theorem scaled_bounds (positive : 0 < count) (small : count < twoTo 53) :
    count.log2 ≤ 52 ∧ twoTo 52 ≤ count * twoTo (52 - count.log2) ∧
      count * twoTo (52 - count.log2) < twoTo 53 := by
  have nonzero : count ≠ 0 := by omega
  have top : count.log2 ≤ 52 := Nat.le_of_lt_succ ((Nat.log2_lt nonzero).mpr small)
  have least : 2 ^ count.log2 ≤ count := Nat.log2_self_le nonzero
  have most : count < 2 ^ (count.log2 + 1) := Nat.lt_log2_self
  have split : 2 ^ count.log2 * 2 ^ (52 - count.log2) = 2 ^ 52 := by
    rw [← pow_add, Nat.add_sub_cancel' top]
  refine ⟨top, ?_, ?_⟩
  · calc twoTo 52 = 2 ^ count.log2 * 2 ^ (52 - count.log2) := split.symm
      _ ≤ count * 2 ^ (52 - count.log2) := Nat.mul_le_mul_right _ least
  · calc count * 2 ^ (52 - count.log2) < 2 ^ (count.log2 + 1) * 2 ^ (52 - count.log2) :=
          Nat.mul_lt_mul_of_pos_right most (by positivity)
      _ = twoTo 53 := by rw [pow_succ, mul_right_comm, split]; rfl

theorem fittingExponent_count (positive : 0 < count) (small : count < twoTo 53) :
    fittingExponent count 1 = (count.log2 : Int) - 52 := by
  obtain ⟨top, least, -⟩ := scaled_bounds positive small
  have one : Nat.log2 1 = 0 := by decide
  have up : (-((count.log2 : Int) - (0 : Nat) - 52)).toNat = 52 - count.log2 := by omega
  have down : ((count.log2 : Int) - (0 : Nat) - 52).toNat = 0 := by omega
  simp only [fittingExponent, one, up, down]
  rw [if_neg (by simpa [twoTo] using least)]
  omega

theorem countBits_finite (positive : 0 < count) (small : count < twoTo 53) :
    (count.log2 + 1022) * twoTo 52 + count * twoTo (52 - count.log2) < infinityBits := by
  obtain ⟨top, -, most⟩ := scaled_bounds positive small
  have place : (count.log2 + 1022) * twoTo 52 ≤ 1074 * twoTo 52 := Nat.mul_le_mul_right _ (by omega)
  have room : 1074 * twoTo 52 + twoTo 53 ≤ infinityBits := by decide
  omega

theorem nearest_eq_ofFields (positive : 0 < count) (small : count < twoTo 53) :
    nearest false count 1 =
      ofFields false ((count.log2 + 1022) * twoTo 52 + count * twoTo (52 - count.log2)) := by
  obtain ⟨top, -, -⟩ := scaled_bounds positive small
  have finite := countBits_finite positive small
  have up : (-((count.log2 : Int) - 52)).toNat = 52 - count.log2 := by omega
  have down : ((count.log2 : Int) - 52).toNat = 0 := by omega
  have place : ((count.log2 : Int) - 52 + 1074).toNat = count.log2 + 1022 := by omega
  have whole (value : Nat) : roundQuotient value (1 * twoTo 0) = value := by
    simp [roundQuotient, twoTo, Nat.mod_one]
  rw [nearest, if_neg (by omega), fittingExponent_count positive small]
  simp only [up, down, place, whole]
  rw [Nat.min_eq_left finite.le]

theorem wholePart_nearest (small : count < twoTo 53) :
    wholePart (nearest false count 1) = count := by
  rcases Nat.eq_zero_or_pos count with rfl | positive
  · decide +kernel
  · obtain ⟨top, least, most⟩ := scaled_bounds positive small
    have bits := toBits_ofFields (countBits_finite positive small)
    rw [← nearest_eq_ofFields positive small] at bits
    have double : twoTo 53 = 2 * twoTo 52 := by decide
    have exponent : exponentField (nearest false count 1) = count.log2 + 1023 := by
      have quotient : ((count.log2 + 1022) * twoTo 52 + count * twoTo (52 - count.log2)) / twoTo 52 =
          count.log2 + 1023 := by
        apply Nat.div_eq_of_lt_le
        · have next : (count.log2 + 1023) * twoTo 52 = (count.log2 + 1022) * twoTo 52 + twoTo 52 := by
            ring
          omega
        · have next : (count.log2 + 1023 + 1) * twoTo 52 =
              (count.log2 + 1022) * twoTo 52 + 2 * twoTo 52 := by ring
          omega
      have width : twoTo 11 = 2048 := rfl
      rw [exponentField, bits, quotient, width]
      exact Nat.mod_eq_of_lt (by omega)
    have fraction : fractionField (nearest false count 1) =
        count * twoTo (52 - count.log2) - twoTo 52 := by
      rw [fractionField, bits, Nat.mul_comm, Nat.mul_add_mod, Nat.mod_eq_sub_mod least]
      exact Nat.mod_eq_of_lt (by omega)
    have size : magnitude (nearest false count 1) =
        ⟨count * twoTo (52 - count.log2), (count.log2 : Int) - 52⟩ := by
      have place : ((count.log2 + 1023 : Nat) : Int) - 1075 = (count.log2 : Int) - 52 := by omega
      rw [magnitude, exponent, fraction, if_neg (by omega), Nat.sub_add_cancel least, place]
    have down : ((count.log2 : Int) - 52).toNat = 0 := by omega
    have up : (-((count.log2 : Int) - 52)).toNat = 52 - count.log2 := by omega
    have quotient : (magnitude (nearest false count 1)).numerator /
        (magnitude (nearest false count 1)).denominator = count := by
      rw [size]
      simp only [Magnitude.numerator, Magnitude.denominator, down, up]
      have one : twoTo 0 = 1 := rfl
      rw [one, Nat.mul_one]
      exact Nat.mul_div_cancel _ (Nat.two_pow_pos _)
    rw [wholePart, if_neg (by omega), quotient]
    exact Nat.min_eq_left (small.le.trans (by decide))

theorem nearest_nonneg (small : count < twoTo 53) : 0 ≤ nearest false count 1 := by
  rcases Nat.eq_zero_or_pos count with rfl | positive
  · decide +kernel
  · rw [nearest_eq_ofFields positive small]
    exact ofFields_nonneg (countBits_finite positive small)

end Counts

end Templating.Number
