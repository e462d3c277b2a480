import Mathlib
import Montage.Proofs.Time.Line

/-!
# Binary numbers on a line

The order in which all numbers of the binary scale are sorted is that of their bits, read as numbers
with a sign in front. The comparison of two times takes numbers apart into sign, significand and
exponent. Main statement: both are the order of the instants that the numbers stand for, so that the
binary scale lies on a line, with its two infinities at the ends.
-/

namespace Montage
open TimeScale

namespace Binary
open Float.Model (UnpackedFloat)
open Float.Model.UnpackedFloat

/-- The bits of a number without its sign. -/
def size (x : Float) : Nat := x.toBits.toNat % 2 ^ 63

theorem rank_eq (x : Float) :
    rank x = if (parts x).negative then 2 ^ 63 - 1 - size x else 2 ^ 63 + size x := by
  have hlt := x.toBits.toNat_lt
  simp only [rank, parts, size]
  split_ifs with h1 h2 h3 h3 <;> simp at * <;> omega

theorem size_eq (x : Float) :
    (size x : Int) = ((parts x).exponent + 1074) * 2 ^ 52 + (parts x).significand := by
  have hlt := x.toBits.toNat_lt
  simp only [parts, size]
  split_ifs with h <;> simp at * <;> omega

/-- The significand has as many digits as there is room for, unless the exponent is the least. -/
theorem parts_bounds (x : Float) :
    -1074 ≤ (parts x).exponent ∧ (parts x).significand < 2 ^ 53 ∧
      ((parts x).exponent = -1074 ∨ 2 ^ 52 ≤ (parts x).significand) := by
  simp only [parts]
  split_ifs with h <;> simp at * <;> omega

/-! ## The parts that are compared -/

def sign (x : Float) : Sign := if (parts x).negative then .negative else .positive

/-- The bits of a number as those that are taken apart. -/
def word (x : Float) : BitVec 64 := x.toModel.toBits.toBitVec

theorem toNat_word (x : Float) : (word x).toNat = x.toBits.toNat := rfl

theorem toNat_mantissa (b : BitVec 64) :
    (@unpackMantissa .binary64 b).toNat = b.toNat % Nat.pow 2 52 := by
  simp [unpackMantissa]

/-- With the digit in front that is not written down. -/
theorem toNat_fullMantissa (b : BitVec 64) :
    (1#1 ++ @unpackMantissa .binary64 b).toNat = Nat.pow 2 52 + b.toNat % Nat.pow 2 52 := by
  rw [BitVec.toNat_append, ← Nat.shiftLeft_add_eq_or_of_lt (BitVec.isLt _), toNat_mantissa]
  rfl

theorem toNat_exponent (b : BitVec 64) :
    (@unpackExponent .binary64 b).toNat = b.toNat / Nat.pow 2 52 % Nat.pow 2 11 := by
  simp [unpackExponent, Nat.shiftRight_eq_div_pow]

theorem ofBitVec_unpackSign (x : Float) :
    Sign.ofBitVec (@unpackSign .binary64 (word x)) = sign x := by
  have hlt := x.toBits.toNat_lt
  have hbit : (@unpackSign .binary64 (word x)).toNat = x.toBits.toNat / 2 ^ 63 % 2 := by
    simp [unpackSign, Nat.shiftRight_eq_div_pow, toNat_word]
  simp only [Sign.ofBitVec, ← BitVec.toNat_inj, hbit, sign, parts]
  split_ifs <;> simp at * <;> omega

theorem parts_of_exponent_eq_zero {x : Float}
    (h : @unpackExponent .binary64 (word x) = 0#_) :
    (parts x).significand = (@unpackMantissa .binary64 (word x)).toNat ∧
      (parts x).exponent = -1074 := by
  have hzero : x.toBits.toNat / Nat.pow 2 52 % Nat.pow 2 11 = 0 := by
    rw [← toNat_word, ← toNat_exponent, h]
    rfl
  simp only [parts, toNat_mantissa, toNat_word, hzero, if_true, and_self]

theorem parts_of_exponent_ne_zero {x : Float}
    (h : @unpackExponent .binary64 (word x) ≠ 0#_) :
    (parts x).significand = (1#1 ++ @unpackMantissa .binary64 (word x)).toNat ∧
      (parts x).exponent = (@unpackExponent .binary64 (word x)).toNat - 1075 := by
  have hpos : x.toBits.toNat / Nat.pow 2 52 % Nat.pow 2 11 ≠ 0 := by
    rw [← toNat_word, ← toNat_exponent]
    exact fun hzero => h (BitVec.eq_of_toNat_eq hzero)
  simp only [parts, toNat_exponent, toNat_word, if_neg hpos, and_true]
  exact (toNat_fullMantissa (word x)).symm

/-- What a defined number is taken apart into. The exponent of an infinity is the one behind those
of the finite numbers. -/
inductive ReadsAs : UnpackedFloat → Sign → Nat → Int → Prop
  | zero (sign : Sign) : ReadsAs (.zero sign) sign 0 (-1074)
  | finite (sign : Sign) {m : Nat} {e : Int} (hm : 0 < m) (hlt : m < 2 ^ 53)
      (hfull : e = -1074 ∨ 2 ^ 52 ≤ m) (hleast : -1074 ≤ e) (hmost : e < 972) :
      ReadsAs (.finite sign m e hm) sign m e
  | infinite (sign : Sign) : ReadsAs (.infinity sign) sign (2 ^ 52) 972

theorem readsAs_unpack {x : Float} (h : x.toModel.unpack ≠ .notANumber) :
    ReadsAs x.toModel.unpack (sign x) (parts x).significand (parts x).exponent := by
  change unpack .binary64 (word x) ≠ .notANumber at h
  change ReadsAs (unpack .binary64 (word x)) _ _ _
  have hbias : (Float.Model.Format.binary64.exponentBias : Int) + 52 = 1075 := rfl
  obtain ⟨hleast, hlt, hfull⟩ := parts_bounds x
  simp only [unpack, ofBitVec_unpackSign] at h ⊢
  by_cases hsmall : @unpackExponent .binary64 (word x) = 0#_
  · obtain ⟨hsignificand, hexponent⟩ := parts_of_exponent_eq_zero hsmall
    rw [hsmall, if_neg (by decide), if_pos rfl]
    by_cases hnone : @unpackMantissa .binary64 (word x) = 0#_
    · rw [dif_pos hnone, hsignificand, hexponent, hnone]
      exact .zero _
    · have hm : 0 < (parts x).significand := by
        rw [hsignificand]
        simpa [BitVec.toNat_pos, BitVec.pos_iff_ne_zero] using hnone
      have hfinite := ReadsAs.finite (sign x) hm hlt hfull hleast (hexponent ▸ by decide)
      rw [dif_neg hnone]
      convert hfinite using 2
      · exact hsignificand.symm
      · exact hexponent.symm
  · obtain ⟨hsignificand, hexponent⟩ := parts_of_exponent_ne_zero hsmall
    split_ifs at h ⊢ with hall hnone
    · rw [hsignificand, hexponent, hall, hnone]
      exact .infinite _
    · exact absurd rfl h
    · have hm : 0 < (parts x).significand := by
        rw [hsignificand, toNat_fullMantissa]
        exact Nat.add_pos_left (Nat.two_pow_pos 52) _
      have hmost : (parts x).exponent < 972 := by
        have hbound := (@unpackExponent .binary64 (word x)).isLt
        have hne : (@unpackExponent .binary64 (word x)).toNat ≠ 2047 := fun heq =>
          hall (BitVec.eq_of_toNat_eq heq)
        rw [hexponent]
        simp at hbound
        omega
      have hfinite := ReadsAs.finite (sign x) hm hlt hfull hleast hmost
      convert hfinite using 2
      · exact hsignificand.symm
      · rw [hexponent, ← hbias]
        rfl

/-! ## Instants -/

noncomputable def scaled (m : Nat) (e : Int) : ℝ := m * 2 ^ e

/-- How far a number is from zero. -/
noncomputable def magnitude : UnpackedFloat → EReal
  | .infinity _ => ⊤
  | .finite _ m e _ => scaled m e
  | _ => 0

noncomputable def signed : Sign → EReal → EReal
  | .positive, x => x
  | .negative, x => -x

noncomputable def instant (x : Float) : EReal := signed (sign x) (magnitude x.toModel.unpack)

theorem scaled_pos {m : Nat} (h : 0 < m) (e : Int) : 0 < scaled m e :=
  mul_pos (Nat.cast_pos.mpr h) (zpow_pos two_pos e)

theorem magnitude_nonneg (u : UnpackedFloat) : 0 ≤ magnitude u := by
  cases u with
  | infinity sign => exact le_top
  | finite sign m e hm => exact EReal.coe_nonneg.mpr (scaled_pos hm e).le
  | _ => exact le_rfl

/-- A significand with all its digits outweighs every one with a lesser exponent. -/
theorem scaled_lt {m m' : Nat} {e e' : Int} (hm : m < 2 ^ 53) (hfull : 2 ^ 52 ≤ m') (h : e < e') :
    scaled m e < scaled m' e' := by
  have hpos : (0 : ℝ) < 2 ^ e := zpow_pos two_pos e
  have hleft : (m : ℝ) < 2 ^ 53 := by exact_mod_cast hm
  have hright : (2 : ℝ) ^ 52 ≤ m' := by exact_mod_cast hfull
  calc scaled m e < 2 ^ 53 * 2 ^ e := mul_lt_mul_of_pos_right hleft hpos
    _ = 2 ^ 52 * 2 ^ (e + 1) := by rw [zpow_add_one₀ two_ne_zero]; ring
    _ ≤ 2 ^ 52 * 2 ^ e' := by
      have hstep : (2 : ℝ) ^ (e + 1) ≤ 2 ^ e' := zpow_le_zpow_right₀ one_le_two h
      exact mul_le_mul_of_nonneg_left hstep (pow_nonneg zero_le_two 52)
    _ ≤ scaled m' e' := mul_le_mul_of_nonneg_right hright (zpow_nonneg zero_le_two e')

section
variable {m m' : Nat} {e e' : Int} (hm : m < 2 ^ 53) (hm' : m' < 2 ^ 53)
  (hfull : e = -1074 ∨ 2 ^ 52 ≤ m) (hfull' : e' = -1074 ∨ 2 ^ 52 ≤ m') (he : -1074 ≤ e)
  (he' : -1074 ≤ e')
include hm hm' hfull hfull' he he'

/-- Room for all digits makes the exponent decide before the significand does. -/
theorem compare_scaled :
    compare (scaled m e) (scaled m' e') = (compare e e').then (compare m m') := by
  obtain hlt | rfl | hgt := Int.lt_trichotomy e e'
  · rw [Int.compare_eq_lt.mpr hlt, compare_lt_iff_lt.mpr (scaled_lt hm (by omega) hlt)]
    rfl
  · have hpos : (0 : ℝ) < 2 ^ e := zpow_pos two_pos e
    rw [Int.compare_eq_eq.mpr rfl]
    obtain hlt | rfl | hgt := Nat.lt_trichotomy m m'
    · rw [Nat.compare_eq_lt.mpr hlt, compare_lt_iff_lt.mpr]
      · rfl
      · exact mul_lt_mul_of_pos_right (Nat.cast_lt.mpr hlt) hpos
    · rw [Nat.compare_eq_eq.mpr rfl, compare_eq_iff_eq.mpr rfl]
      rfl
    · rw [Nat.compare_eq_gt.mpr hgt, compare_gt_iff_gt.mpr]
      · rfl
      · exact mul_lt_mul_of_pos_right (Nat.cast_lt.mpr hgt) hpos
  · rw [Int.compare_eq_gt.mpr hgt, compare_gt_iff_gt.mpr (scaled_lt hm' (by omega) hgt)]
    rfl

theorem scaled_le (h : (e + 1074) * 2 ^ 52 + m ≤ (e' + 1074) * 2 ^ 52 + m') :
    scaled m e ≤ scaled m' e' := by
  obtain hlt | rfl | hgt := Int.lt_trichotomy e e'
  · exact (scaled_lt hm (by omega) hlt).le
  · have hle : (m : ℝ) ≤ m' := Nat.cast_le.mpr (by omega)
    exact mul_le_mul_of_nonneg_right hle (zpow_nonneg zero_le_two e)
  · omega

end

/-! ## Comparison -/

theorem compare_coe (x y : ℝ) : compare (x : EReal) y = compare x y := by
  obtain h | rfl | h := lt_trichotomy x y
  · rw [compare_lt_iff_lt.mpr h, compare_lt_iff_lt.mpr (EReal.coe_lt_coe h)]
  · rw [compare_eq_iff_eq.mpr rfl, compare_eq_iff_eq.mpr rfl]
  · rw [compare_gt_iff_gt.mpr h, compare_gt_iff_gt.mpr (EReal.coe_lt_coe h)]

theorem compare_neg (x y : EReal) : compare (-x) (-y) = (compare x y).swap := by
  obtain h | rfl | h := lt_trichotomy x y
  · rw [compare_lt_iff_lt.mpr h, compare_gt_iff_gt.mpr (EReal.neg_lt_neg_iff.mpr h)]
    rfl
  · rw [compare_eq_iff_eq.mpr rfl, compare_eq_iff_eq.mpr rfl]
    rfl
  · rw [compare_gt_iff_gt.mpr h, compare_lt_iff_lt.mpr (EReal.neg_lt_neg_iff.mpr h)]
    rfl

theorem compare_sign (s s' : Sign) : compare s s' = compare (signed s ⊤) (signed s' ⊤) := by
  cases s <;> cases s'
  · exact (compare_eq_iff_eq.mpr rfl).symm
  · exact (compare_lt_iff_lt.mpr bot_lt_top).symm
  · exact (compare_gt_iff_gt.mpr bot_lt_top).symm
  · exact (compare_eq_iff_eq.mpr rfl).symm

theorem lt_eq_compare {x y : EReal} : .lt = compare x y ↔ x < y := by
  rw [eq_comm, compare_lt_iff_lt]

theorem gt_eq_compare {x y : EReal} : .gt = compare x y ↔ y < x := by
  rw [eq_comm, compare_gt_iff_gt]

theorem neg_scaled_lt_top (m : Nat) (e : Int) : -(scaled m e : EReal) < ⊤ :=
  EReal.coe_neg (scaled m e) ▸ EReal.coe_lt_top _

theorem bot_lt_neg_scaled (m : Nat) (e : Int) : ⊥ < -(scaled m e : EReal) :=
  EReal.coe_neg (scaled m e) ▸ EReal.bot_lt_coe _

section
variable {u v : UnpackedFloat} {s s' : Sign} {m m' : Nat} {e e' : Int}
  (hu : ReadsAs u s m e) (hv : ReadsAs v s' m' e')
include hu hv

theorem magnitude_le (h : (e + 1074) * 2 ^ 52 + m ≤ (e' + 1074) * 2 ^ 52 + m') :
    magnitude u ≤ magnitude v := by
  cases hu with
  | zero => exact magnitude_nonneg v
  | finite _ hm hlt hfull hleast hmost =>
    cases hv with
    | zero => omega
    | finite _ _ hlt' hfull' hleast' _ =>
      exact EReal.coe_le_coe_iff.mpr (scaled_le hlt hlt' hfull hfull' hleast hleast' h)
    | infinite => exact le_top
  | infinite =>
    cases hv with
    | zero => omega
    | finite => omega
    | infinite => exact le_rfl

/-- Numbers are compared as what they stand for. -/
theorem compare_signed :
    u.compare v = some (compare (signed s (magnitude u)) (signed s' (magnitude v))) := by
  cases hu with
  | zero =>
    cases hv with
    | zero => cases s <;> cases s' <;> simp [UnpackedFloat.compare, signed, magnitude]
    | finite _ hm =>
      cases s <;> cases s' <;> simp [UnpackedFloat.compare, signed, magnitude,
        lt_eq_compare, gt_eq_compare, scaled_pos hm e']
    | infinite =>
      cases s <;> cases s' <;> simp [UnpackedFloat.compare, signed, magnitude,
        lt_eq_compare, gt_eq_compare]
  | finite _ hm hlt hfull hleast =>
    have hpos := scaled_pos hm e
    cases hv with
    | zero =>
      cases s <;> cases s' <;> simp [UnpackedFloat.compare, signed, magnitude,
        lt_eq_compare, gt_eq_compare, hpos]
    | finite _ hm' hlt' hfull' hleast' =>
      have hpos' := scaled_pos hm' e'
      have hsame := compare_scaled hlt hlt' hfull hfull' hleast hleast'
      have hneg : -(scaled m e : EReal) < scaled m' e' := by
        rw [← EReal.coe_neg, EReal.coe_lt_coe_iff]
        linarith
      have hneg' : -(scaled m' e' : EReal) < scaled m e := by
        rw [← EReal.coe_neg, EReal.coe_lt_coe_iff]
        linarith
      cases s <;> cases s' <;> simp [UnpackedFloat.compare, signed, magnitude,
        lt_eq_compare, gt_eq_compare, compare_neg, compare_coe, hsame, hneg, hneg']
    | infinite =>
      cases s <;> cases s' <;> simp [UnpackedFloat.compare, signed, magnitude,
        lt_eq_compare, gt_eq_compare, neg_scaled_lt_top, bot_lt_neg_scaled]
  | infinite =>
    cases hv with
    | zero =>
      cases s <;> cases s' <;> simp [UnpackedFloat.compare, signed, magnitude,
        lt_eq_compare, gt_eq_compare]
    | finite _ hm =>
      cases s <;> cases s' <;> simp [UnpackedFloat.compare, signed, magnitude,
        lt_eq_compare, gt_eq_compare, neg_scaled_lt_top, bot_lt_neg_scaled]
    | infinite => exact congrArg some (compare_sign s s')

end

/-- The undefined number cannot be compared. -/
theorem compare_eq_none {u v : UnpackedFloat} (h : ¬(u ≠ .notANumber ∧ v ≠ .notANumber)) :
    u.compare v = none := by
  obtain rfl | rfl : u = .notANumber ∨ v = .notANumber := by tauto
  · rfl
  · cases u <;> rfl

section
variable {x y : Float}

theorem compare_unpack (hx : x.toModel.unpack ≠ .notANumber) (hy : y.toModel.unpack ≠ .notANumber) :
    x.toModel.unpack.compare y.toModel.unpack = some (compare (instant x) (instant y)) :=
  compare_signed (readsAs_unpack hx) (readsAs_unpack hy)

theorem le_iff : x ≤ y ↔ x.toModel.unpack ≠ .notANumber ∧ y.toModel.unpack ≠ .notANumber ∧
    instant x ≤ instant y := by
  have hle : x ≤ y ↔ (x.toModel.unpack.compare y.toModel.unpack).any Ordering.isLE = true :=
    decide_eq_true_iff
  rw [hle, ← and_assoc]
  by_cases h : x.toModel.unpack ≠ .notANumber ∧ y.toModel.unpack ≠ .notANumber
  · rw [compare_unpack h.1 h.2, Option.any_some, ← Ordering.ne_gt_iff_isLE, ← ne_eq,
      compare_le_iff_le]
    exact (and_iff_right h).symm
  · rw [compare_eq_none h, Option.any_none]
    exact iff_of_false Bool.false_ne_true fun hboth => h hboth.1

theorem lt_iff : x < y ↔ x.toModel.unpack ≠ .notANumber ∧ y.toModel.unpack ≠ .notANumber ∧
    instant x < instant y := by
  have hlt : x < y ↔ (x.toModel.unpack.compare y.toModel.unpack == some .lt) = true :=
    decide_eq_true_iff
  rw [hlt, beq_iff_eq, ← and_assoc]
  by_cases h : x.toModel.unpack ≠ .notANumber ∧ y.toModel.unpack ≠ .notANumber
  · rw [compare_unpack h.1 h.2, Option.some_inj, compare_lt_iff_lt]
    exact (and_iff_right h).symm
  · rw [compare_eq_none h]
    exact iff_of_false nofun fun hboth => h hboth.1

theorem defined_iff : Defined x ↔ x.toModel.unpack ≠ .notANumber := by
  rw [Defined, le_iff]
  exact ⟨And.left, fun h => ⟨h, h, le_rfl⟩⟩

theorem defined_of_isFinite (h : x.isFinite = true) : Defined x := by
  rw [defined_iff]
  intro hnone
  change x.toModel.unpack.isFinite = true at h
  rw [hnone] at h
  cases h

/-- What is sorted is in order of time. -/
theorem instant_le (hx : Defined x) (hy : Defined y) (h : ascending x y = true) :
    instant x ≤ instant y := by
  have hxreads := readsAs_unpack (defined_iff.mp hx)
  have hyreads := readsAs_unpack (defined_iff.mp hy)
  have hxlt : size x < 2 ^ 63 := Nat.mod_lt _ (by decide)
  have hylt : size y < 2 ^ 63 := Nat.mod_lt _ (by decide)
  have hxsize := size_eq x
  have hysize := size_eq y
  have hxpos := magnitude_nonneg x.toModel.unpack
  have hypos := magnitude_nonneg y.toModel.unpack
  rw [ascending_iff, rank_eq, rank_eq] at h
  unfold instant sign
  cases hxneg : (parts x).negative <;> cases hyneg : (parts y).negative <;>
    simp only [hxneg, hyneg, if_true, Bool.false_eq_true, if_false, signed] at h ⊢
  · exact magnitude_le hxreads hyreads (by omega)
  · omega
  · exact (EReal.neg_le_zero.mpr hxpos).trans hypos
  · exact EReal.neg_le_neg_iff.mpr (magnitude_le hyreads hxreads (by omega))

end

end Binary

noncomputable instance : OnLine Float where
  instant := Binary.instant
  le_iff := by
    intro x y
    rw [Binary.defined_iff, Binary.defined_iff]
    exact Binary.le_iff
  lt_iff := by
    intro x y
    rw [Binary.defined_iff, Binary.defined_iff]
    exact Binary.lt_iff
  instant_le := Binary.instant_le

end Montage
