import Montage.Proofs.Time.Binary
import Montage.Proofs.Time.Words

/-!
# Whole numbers on the binary scale

A whole number with no more digits than a significand has room for is on the binary scale as it is:
nothing of it is lost where it is taken up, where it is rounded to a whole number and where it is
turned into a word again. Main statement: the binary scale holds all words of 32 bits.
-/

namespace Montage
open TimeScale

namespace Binary
open Float.Model (UnpackedFloat totalExponent)
open Float.Model.UnpackedFloat

/-! ## Rounding off nothing -/

/-- Zeros behind a significand are dropped without a loss. -/
theorem shift_zeros (m k : Nat) :
    ExtendedMantissa.ofMantissaAndAccuracy (m * 2 ^ k) .exact >>> k =
      ExtendedMantissa.ofMantissaAndAccuracy m .exact := by
  induction k generalizing m with
  | zero =>
    rw [Nat.pow_zero, Nat.mul_one]
    rfl
  | succ k ih =>
    have hstep : ExtendedMantissa.ofMantissaAndAccuracy (m * 2 ^ (k + 1)) .exact >>> (k + 1) =
        (ExtendedMantissa.ofMantissaAndAccuracy (m * 2 * 2 ^ k) .exact >>> k).shiftRightOne := by
      rw [Nat.pow_succ', ← Nat.mul_assoc]
      rfl
    rw [hstep, ih]
    simp [ExtendedMantissa.shiftRightOne, ExtendedMantissa.ofMantissaAndAccuracy]

section
variable {m : Nat} {e : Int} (hfull : 2 ^ 52 ≤ m) (hlt : m < 2 ^ 53)
include hfull hlt

theorem log2_of_full (k : Nat) : (m * 2 ^ k).log2 = 52 + k := by
  have hpos : 0 < m * 2 ^ k := Nat.mul_pos (by omega) (Nat.two_pow_pos k)
  rw [Nat.log2_eq_iff hpos.ne', Nat.pow_add, show 52 + k + 1 = 53 + k by omega, Nat.pow_add]
  exact ⟨Nat.mul_le_mul_right _ hfull, Nat.mul_lt_mul_of_pos_right hlt (Nat.two_pow_pos k)⟩

variable (he : -1074 ≤ e)
include he

theorem shiftToTargetExponent_of_full (k : Nat) :
    shiftToTargetExponent .binary64 (m * 2 ^ k) (e - k) .exact =
      (ExtendedMantissa.ofMantissaAndAccuracy m .exact, e) := by
  have htarget : Float.Model.Format.binary64.targetExponent (totalExponent (m * 2 ^ k) (e - k)) =
      e := by
    simp only [Float.Model.Format.targetExponent, totalExponent, log2_of_full hfull hlt,
      Float.Model.Format.mantissaBits, Float.Model.Format.minExponent]
    omega
  have hshift : (e - (e - k)).toNat = k := by omega
  simp only [shiftToTargetExponent, htarget, shiftToExponent, hshift, shift_zeros]
  congr 1
  omega

/-- A significand that fills its room is not rounded, whatever zeros stand behind it. -/
theorem roundWithAccuracy_of_full (sign : Sign) (k : Nat) :
    roundWithAccuracy .binary64 sign (m * 2 ^ k) (e - k) .exact =
      .finite sign m e (by omega) := by
  have hagain := shiftToTargetExponent_of_full hfull hlt he 0
  rw [Nat.pow_zero, Nat.mul_one, Nat.cast_zero, sub_zero] at hagain
  have hm : m ≠ 0 := by omega
  simp [roundWithAccuracy, shiftToTargetExponent_of_full hfull hlt he, hagain,
    ExtendedMantissa.ofMantissaAndAccuracy, ExtendedMantissa.roundedMantissa,
    ExtendedMantissa.accuracy, Accuracy.roundToNearestEven, hm]

end

/-! ## Parts put together and taken apart

An exponent is written as the natural number by which it is ahead of `-1075`. -/

theorem unpackSign_packComponents (sign : Sign) (exponent : BitVec 11) (mantissa : BitVec 52) :
    unpackSign (packComponents .binary64 sign exponent mantissa) = sign.toBitVec := by
  change (sign.toBitVec ++ exponent ++ mantissa).extractLsb' 63 1 = sign.toBitVec
  rw [BitVec.extractLsb'_append_eq_of_le (by decide),
    BitVec.extractLsb'_append_eq_of_le (by decide)]
  exact BitVec.extractLsb'_eq_self

section
variable {m n : Nat} (sign : Sign) (hfull : 2 ^ 52 ≤ m) (hlt : m < 2 ^ 53) (hpos : 0 < n)
  (hmost : n < 2047)
include hfull hlt hpos hmost

theorem pack_of_full : pack .binary64 (.finite sign m (n - 1075) (by omega)) =
    packComponents .binary64 sign (.ofNat 11 n) (.ofNat 52 m) := by
  have hlog : m.log2 = 52 := by simpa using log2_of_full hfull hlt 0
  have hbias : (Float.Model.Format.binary64.exponentBias : Int) = 1023 := rfl
  have hbiased : ((n : Int) - 1075 + Float.Model.Format.binary64.exponentBias +
      (52 : Nat)).toNat = n := by omega
  have hroom : ¬ 2 ^ 11 ≤ n + 1 := by omega
  simp only [pack, hbiased, hlog]
  rw [if_neg hroom]
  rfl

theorem unpack_packComponents :
    unpack .binary64 (packComponents .binary64 sign (.ofNat 11 n) (.ofNat 52 m)) =
      .finite sign m (n - 1075) (by omega) := by
  have hsign : Sign.ofBitVec sign.toBitVec = sign := by cases sign <;> rfl
  have hbias : (Float.Model.Format.binary64.exponentBias : Int) = 1023 := rfl
  have hexponent : (BitVec.ofNat 11 n).toNat = n := by
    rw [BitVec.toNat_ofNat]
    omega
  have hmantissa : (1#1 ++ BitVec.ofNat 52 m).toNat = m := by
    rw [BitVec.toNat_append, ← Nat.shiftLeft_add_eq_or_of_lt (BitVec.isLt _), BitVec.toNat_ofNat,
      Nat.shiftLeft_eq]
    change 1 * 2 ^ 52 + m % 2 ^ 52 = m
    omega
  have hall : BitVec.ofNat 11 n ≠ -1#_ := by
    intro heq
    have hnat : (BitVec.ofNat 11 n).toNat = 2047 := congrArg BitVec.toNat heq
    omega
  have hleast : BitVec.ofNat 11 n ≠ 0#_ := by
    intro heq
    have hnat : (BitVec.ofNat 11 n).toNat = 0 := congrArg BitVec.toNat heq
    omega
  simp only [unpack, unpackMantissa_packComponents, unpackExponent_packComponents,
    unpackSign_packComponents]
  rw [if_neg hall, if_neg hleast]
  simp only [hsign, hexponent, hmantissa, hbias]
  congr 1

end

/-- A number is taken apart into what it was put together of. -/
theorem unpack_pack_of_full {m : Nat} {e : Int} (sign : Sign) (hfull : 2 ^ 52 ≤ m)
    (hlt : m < 2 ^ 53) (hleast : -1074 ≤ e) (hmost : e < 972) :
    unpack .binary64 (pack .binary64 (.finite sign m e (by omega))) =
      .finite sign m e (by omega) := by
  obtain ⟨n, rfl⟩ : ∃ n : Nat, e = n - 1075 := ⟨(e + 1075).toNat, by omega⟩
  have hpos : 0 < n := by omega
  rw [pack_of_full sign hfull hlt hpos (by omega),
    unpack_packComponents sign hfull hlt hpos (by omega)]

/-! ## Natural numbers -/

section
variable {n : Nat} (hpos : 0 < n) (hlt : n < 2 ^ 53)
include hpos hlt

theorem log2_lt : n.log2 ≤ 52 := Nat.lt_succ_iff.mp ((Nat.log2_lt hpos.ne').mpr hlt)

/-- A number is moved up to use all the room of a significand. -/
theorem full_mul_two_pow : 2 ^ 52 ≤ n * 2 ^ (52 - n.log2) ∧ n * 2 ^ (52 - n.log2) < 2 ^ 53 := by
  have hlog := log2_lt hpos hlt
  have hlow := Nat.mul_le_mul_right (2 ^ (52 - n.log2)) (Nat.log2_self_le hpos.ne')
  have hhigh := Nat.mul_lt_mul_of_pos_right (Nat.lt_log2_self (n := n))
    (Nat.two_pow_pos (52 - n.log2))
  rw [← Nat.pow_add] at hlow hhigh
  rw [show n.log2 + (52 - n.log2) = 52 by omega] at hlow
  rw [show n.log2 + 1 + (52 - n.log2) = 53 by omega] at hhigh
  exact ⟨hlow, hhigh⟩

theorem unpackedOfNat_eq : UnpackedFloat.ofNat .binary64 n =
    .finite .positive (n * 2 ^ (52 - n.log2)) (n.log2 - 52)
      (Nat.mul_pos hpos (Nat.two_pow_pos _)) := by
  have hlog := log2_lt hpos hlt
  obtain ⟨hlow, hhigh⟩ := full_mul_two_pow hpos hlt
  have hcompare : compare (n : Int) 0 = .gt := Int.compare_eq_gt.mpr (by omega)
  have htarget : Float.Model.Format.binary64.targetExponent (totalExponent n 0) =
      n.log2 - 52 := by
    simp only [Float.Model.Format.targetExponent, totalExponent, Float.Model.Format.mantissaBits,
      Float.Model.Format.minExponent]
    omega
  have hshift : (0 - ((n.log2 : Int) - 52)).toNat = 52 - n.log2 := by omega
  have hexponent : (0 : Int) - (52 - n.log2 : Nat) = n.log2 - 52 := by omega
  have hround := roundWithAccuracy_of_full hlow hhigh (e := n.log2 - 52) (by omega) .positive 0
  rw [Nat.pow_zero, Nat.mul_one, Nat.cast_zero, sub_zero] at hround
  simp only [UnpackedFloat.ofNat, UnpackedFloat.ofInt, UnpackedFloat.normalize, hcompare,
    UnpackedFloat.round, Int.toNat_natCast, htarget, decreaseExponent, hshift, hexponent,
    Nat.shiftLeft_eq, hround]

omit hpos in
/-- A decimal of few digits is a word multiplied by a power of ten, here by one. -/
theorem ofNat_eq_mul : Float.ofNat n = n.toUInt64.toFloat * Float.ofBits 0x3FF0000000000000 := by
  have hfew : n < 2 ^ 53 ∧ 0 ≤ 22 := ⟨hlt, by decide⟩
  change Float.ofScientific n false 0 = _
  rw [Float.ofScientific, dif_pos hfew]
  rfl

theorem unpack_ofNat : (Float.ofNat n).toModel.unpack =
    .finite .positive (n * 2 ^ (52 - n.log2)) (n.log2 - 52)
      (Nat.mul_pos hpos (Nat.two_pow_pos _)) := by
  have hlog := log2_lt hpos hlt
  obtain ⟨hlow, hhigh⟩ := full_mul_two_pow hpos hlt
  have hword : n.toUInt64.toFloat.toModel.unpack = .finite .positive (n * 2 ^ (52 - n.log2))
      (n.log2 - 52) (Nat.mul_pos hpos (Nat.two_pow_pos _)) := by
    have hn : n.toUInt64.toNat = n := Nat.mod_eq_of_lt (by omega)
    change unpack .binary64 (pack .binary64 (UnpackedFloat.ofNat .binary64 n.toUInt64.toNat)) = _
    rw [hn, unpackedOfNat_eq hpos hlt]
    exact unpack_pack_of_full .positive hlow hhigh (by omega) (by omega)
  have hone : (Float.ofBits 0x3FF0000000000000).toModel.unpack =
      .finite .positive (2 ^ 52) (-52) (by decide) := rfl
  have hround := roundWithAccuracy_of_full hlow hhigh (e := n.log2 - 52) (by omega) .positive 52
  have hmul : UnpackedFloat.mul .binary64 n.toUInt64.toFloat.toModel.unpack
      (Float.ofBits 0x3FF0000000000000).toModel.unpack =
      .finite .positive (n * 2 ^ (52 - n.log2)) (n.log2 - 52)
        (Nat.mul_pos hpos (Nat.two_pow_pos _)) := by
    rw [hword, hone]
    exact hround
  rw [ofNat_eq_mul hlt]
  change unpack .binary64 (pack .binary64 (UnpackedFloat.mul .binary64
    n.toUInt64.toFloat.toModel.unpack (Float.ofBits 0x3FF0000000000000).toModel.unpack)) = _
  rw [hmul]
  exact unpack_pack_of_full .positive hlow hhigh (by omega) (by omega)

theorem roundToInt_full : roundToInt .positive (n * 2 ^ (52 - n.log2)) (n.log2 - 52) = n := by
  have hlog := log2_lt hpos hlt
  have hplaces : (0 - ((n.log2 : Int) - 52)).toNat = 52 - n.log2 := by omega
  have hnone : ((n.log2 : Int) - 52).toNat = 0 := by omega
  simp only [roundToInt, decreaseExponent, sub_zero, hnone, Nat.cast_zero, shiftToExponent,
    Nat.shiftLeft_zero, hplaces, shift_zeros]
  rfl

theorem parts_ofNat : (parts (Float.ofNat n)).negative = false ∧
    (parts (Float.ofNat n)).significand = n * 2 ^ (52 - n.log2) ∧
    (parts (Float.ofNat n)).exponent = n.log2 - 52 := by
  have hunpack := unpack_ofNat hpos hlt
  have hreads := readsAs_unpack (x := Float.ofNat n) (by rw [hunpack]; exact nofun)
  rw [hunpack] at hreads
  generalize hsign : sign (Float.ofNat n) = s at hreads
  generalize (parts (Float.ofNat n)).significand = m at hreads ⊢
  generalize (parts (Float.ofNat n)).exponent = e at hreads ⊢
  cases hreads
  refine ⟨?_, rfl, rfl⟩
  unfold sign at hsign
  split_ifs at hsign with hnegative
  exact Bool.eq_false_iff.mpr hnegative

end

section
variable {n : Nat} (hlt : n < 2 ^ 53)
include hlt

theorem instant_ofNat : instant (Float.ofNat n) = ((n : ℝ) : EReal) := by
  obtain rfl | hpos := n.eq_zero_or_pos
  · have hunpack : (Float.ofNat 0).toModel.unpack = .zero .positive := rfl
    rw [instant, hunpack]
    cases sign (Float.ofNat 0) <;> simp [signed, magnitude]
  · have hlog := log2_lt hpos hlt
    have hvalue : scaled (n * 2 ^ (52 - n.log2)) (n.log2 - 52) = n := by
      have hinverse : (n.log2 : Int) - 52 = -(52 - n.log2 : Nat) := by omega
      have hne : (2 : ℝ) ^ (52 - n.log2) ≠ 0 := pow_ne_zero _ two_ne_zero
      rw [scaled, hinverse, zpow_neg, zpow_natCast]
      push_cast
      exact mul_inv_cancel_right₀ hne _
    obtain ⟨hnegative, -⟩ := parts_ofNat hpos hlt
    rw [instant, unpack_ofNat hpos hlt, sign, hnegative]
    simp only [Bool.false_eq_true, if_false, signed, magnitude, hvalue]

theorem isFinite_ofNat : (Float.ofNat n).isFinite = true := by
  obtain rfl | hpos := n.eq_zero_or_pos
  · decide +kernel
  · change (Float.ofNat n).toModel.unpack.isFinite = true
    rw [unpack_ofNat hpos hlt]
    rfl

theorem round_ofNat : round (Float.ofNat n) = Float.ofNat n := by
  obtain rfl | hpos := n.eq_zero_or_pos
  · decide +kernel
  · obtain ⟨hnegative, hsignificand, hexponent⟩ := parts_ofNat hpos hlt
    simp only [round, hnegative, hsignificand, hexponent, Bool.false_eq_true, if_false]
    split_ifs with hfraction
    · have hplaces : ((n.log2 : Int) - 52).natAbs = 52 - n.log2 := by omega
      have hunit : 0 < Nat.pow 2 (52 - n.log2) := Nat.two_pow_pos _
      have hwhole : 2 * (n * Nat.pow 2 (52 - n.log2)) + Nat.pow 2 (52 - n.log2) =
          Nat.pow 2 (52 - n.log2) + n * (2 * Nat.pow 2 (52 - n.log2)) := by ring
      rw [hplaces]
      change Float.ofNat ((2 * (n * Nat.pow 2 (52 - n.log2)) + _) / _) = _
      rw [hwhole, Nat.add_mul_div_right _ _ (by omega), Nat.div_eq_of_lt (by omega), Nat.zero_add]
    · rfl

theorem toWord_ofNat : toWord (Float.ofNat n) = n := by
  obtain rfl | hpos := n.eq_zero_or_pos
  · decide +kernel
  · have hword : (Float.ofNat n).toUInt64 = UInt64.ofNatClamp n := by
      change UInt64.ofNatClamp ((Float.ofNat n).toModel.unpack.toInt 0 _).toNat = _
      rw [unpack_ofNat hpos hlt, toInt, roundToInt_full hpos hlt, Int.toNat_natCast]
    have hsize : n < UInt64.size := hlt.trans (by decide)
    change (Float.ofNat n).toUInt64.toNat = n
    rw [hword, UInt64.ofNatClamp, dif_pos hsize]
    rfl

end

theorem ofNat_le_ofNat {m n : Nat} (hlt : n < 2 ^ 53) (h : m ≤ n) :
    Float.ofNat m ≤ Float.ofNat n := by
  have hm : m < 2 ^ 53 := by omega
  have hinstant : instant (Float.ofNat m) ≤ instant (Float.ofNat n) := by
    rw [instant_ofNat hm, instant_ofNat hlt, EReal.coe_le_coe_iff]
    exact Nat.cast_le.mpr h
  exact OnLine.le_iff.mpr ⟨defined_of_isFinite (isFinite_ofNat hm),
    defined_of_isFinite (isFinite_ofNat hlt), hinstant⟩

end Binary

instance : HoldsWords Float where
  finite_ofNat n hn := Binary.isFinite_ofNat (by omega)
  finite_zoom := by decide +kernel
  finite_ofInt n hn := Binary.isFinite_ofNat (by omega)
  zero_le n hn :=
    show Float.ofNat 0 ≤ Float.ofNat n from Binary.ofNat_le_ofNat (by omega) (Nat.zero_le n)
  le_greatest n hn :=
    show Float.ofNat n ≤ Float.ofNat (Nat.pow 2 32 - 1) from
      Binary.ofNat_le_ofNat (by decide) (Nat.le_sub_one_of_lt hn)
  toWord_round n hn := by
    have hround : TimeScale.round (ofInt n : Float) = Float.ofNat n :=
      Binary.round_ofNat (n := n) (by omega)
    rw [hround]
    exact Binary.toWord_ofNat (by omega)

end Montage
