import Reckon.Binary64.Arithmetic
import Mathlib.Algebra.Order.Field.Power
import Mathlib.Data.Int.Log
import Mathlib.Data.Rat.Floor
import Mathlib.Tactic.FieldSimp
import Mathlib.Tactic.Linarith

/-!
# The nearest number to a number is the number

Rounding first finds the exponent that the result will have, and then the integer mantissa that
comes closest. For a rational that is a binary64 number already the exponent it finds is the one
the number is stored with, and so the mantissa is an integer before it is rounded. All exactness
follows from this one fact, `nearest_toRat`: what an operation computes exactly is kept if it is a
number of the format, and integers up to `2 ^ 53 - 1` are.
-/

namespace Reckon.Binary64

/-! ## Binary logarithms

The lengths of numerator and denominator give the logarithm of a rational up to one, and a
comparison decides. Nothing after this section looks into that: `floorLog2_spec` puts the rational
between two powers of two, and `floorLog2_eq` says that no other two powers enclose it. -/

theorem two_zpow_log2 {n : Nat} (h : n ≠ 0) :
    (2 : Rat) ^ (n.log2 : Int) ≤ n ∧ (n : Rat) < 2 ^ ((n.log2 : Int) + 1) := by
  have hlow : 2 ^ n.log2 ≤ n := Nat.log2_self_le h
  have hhigh : n < 2 ^ (n.log2 + 1) := Nat.lt_log2_self
  constructor
  · exact_mod_cast hlow
  · exact_mod_cast hhigh

/-- The difference of the logarithms is right, or one too great. -/
theorem floorLog2_spec {a : Rat} (h : 0 < a) :
    (2 : Rat) ^ floorLog2 a ≤ a ∧ a < 2 ^ (floorLog2 a + 1) := by
  have hnum : a.num.natAbs ≠ 0 := by simpa using h.ne'
  have hvalue : a * a.den = a.num.natAbs := by
    rw [Rat.mul_den_eq_num, ← Int.cast_natCast, Int.natAbs_of_nonneg (Rat.num_nonneg.mpr h.le)]
  have hden : (0 : Rat) < a.den := Nat.cast_pos.mpr a.den_pos
  obtain ⟨hnlow, hnhigh⟩ := two_zpow_log2 hnum
  obtain ⟨hdlow, hdhigh⟩ := two_zpow_log2 a.den_nz
  have htwo : (2 : Rat) ≠ 0 := by norm_num
  set k : Int := (a.num.natAbs.log2 : Int) - a.den.log2 with hk
  have hlow : (2 : Rat) ^ (k - 1) < a := by
    refine lt_of_mul_lt_mul_right ?_ hden.le
    calc (2 : Rat) ^ (k - 1) * a.den < 2 ^ (k - 1) * 2 ^ ((a.den.log2 : Int) + 1) :=
          mul_lt_mul_of_pos_left hdhigh (zpow_pos (by norm_num) _)
      _ = 2 ^ (a.num.natAbs.log2 : Int) := by
          rw [← zpow_add₀ htwo]
          congr 1
          omega
      _ ≤ a * a.den := hvalue ▸ hnlow
  have hhigh : a < 2 ^ (k + 1) := by
    refine lt_of_mul_lt_mul_right ?_ hden.le
    calc a * a.den < 2 ^ ((a.num.natAbs.log2 : Int) + 1) := hvalue ▸ hnhigh
      _ = 2 ^ (k + 1) * 2 ^ (a.den.log2 : Int) := by
          rw [← zpow_add₀ htwo]
          congr 1
          omega
      _ ≤ 2 ^ (k + 1) * a.den := mul_le_mul_of_nonneg_left hdlow (zpow_pos (by norm_num) _).le
  unfold floorLog2
  dsimp only
  rw [← hk]
  split
  · next hle => exact ⟨hle, hhigh⟩
  · next hlt =>
      rw [Int.sub_add_cancel]
      exact ⟨hlow.le, lt_of_not_ge hlt⟩

/-- The logarithm is the only exponent that fits. -/
theorem floorLog2_eq {a : Rat} {k : Int} (hlow : (2 : Rat) ^ k ≤ a) (hhigh : a < 2 ^ (k + 1)) :
    floorLog2 a = k := by
  have hpos : 0 < a := (zpow_pos (by norm_num) k).trans_le hlow
  obtain ⟨hlow', hhigh'⟩ := floorLog2_spec hpos
  have hone : (1 : Rat) < 2 := by norm_num
  have hle := (zpow_lt_zpow_iff_right₀ hone).mp (hlow.trans_lt hhigh')
  have hge := (zpow_lt_zpow_iff_right₀ hone).mp (hlow'.trans_lt hhigh)
  omega

theorem floorLog2_mul_zpow {m : Nat} (h : m ≠ 0) (e : Int) :
    floorLog2 (m * 2 ^ e) = m.log2 + e := by
  obtain ⟨hlow, hhigh⟩ := two_zpow_log2 h
  have htwo : (2 : Rat) ≠ 0 := by norm_num
  have hpos : (0 : Rat) < 2 ^ e := zpow_pos (by norm_num) e
  refine floorLog2_eq ?_ ?_
  · rw [zpow_add₀ htwo]
    exact mul_le_mul_of_nonneg_right hlow hpos.le
  · rw [show (m.log2 : Int) + e + 1 = (m.log2 + 1 : Int) + e by omega, zpow_add₀ htwo]
    exact mul_lt_mul_of_pos_right hhigh hpos

theorem roundEven_intCast (n : Int) : roundEven n = n := by
  have hfloor : (n : Rat).floor = n := Rat.floor_intCast n
  unfold roundEven
  dsimp only
  rw [hfloor, if_pos (by norm_num)]

namespace Finite

theorem magnitude_nonneg (x : Finite) : 0 ≤ x.magnitude :=
  mul_nonneg (Nat.cast_nonneg _) (zpow_pos (by norm_num) _).le

theorem magnitude_eq_zero {x : Finite} : x.magnitude = 0 ↔ x.mantissa = 0 := by
  have hpow : (2 : Rat) ^ x.exponent ≠ 0 := zpow_ne_zero _ (by norm_num)
  rw [magnitude, mul_eq_zero, or_iff_left hpow, Nat.cast_eq_zero]

theorem magnitude_pos {x : Finite} (h : x.mantissa ≠ 0) : 0 < x.magnitude :=
  lt_of_le_of_ne x.magnitude_nonneg (Ne.symm (mt magnitude_eq_zero.mp h))

theorem toRat_eq_zero {x : Finite} : x.toRat = 0 ↔ x.mantissa = 0 := by
  rw [← magnitude_eq_zero, toRat]
  split
  · exact neg_eq_zero
  · rfl

/-- A number is stored with the exponent that rounding finds. -/
theorem exponent_eq {x : Finite} (h : x.mantissa ≠ 0) :
    max (floorLog2 x.magnitude - 52) (-1074) = x.exponent := by
  have hlow : 2 ^ x.mantissa.log2 ≤ x.mantissa := Nat.log2_self_le h
  have hhigh : x.mantissa < 2 ^ (x.mantissa.log2 + 1) := Nat.lt_log2_self
  have hlt : x.mantissa.log2 < 53 :=
    (Nat.pow_lt_pow_iff_right (by decide : 1 < 2)).mp (hlow.trans_lt x.mantissa_lt)
  have hleast := x.le_exponent
  rw [magnitude, floorLog2_mul_zpow h]
  rcases x.normal with hsub | hnormal
  · omega
  · have hge : 52 < x.mantissa.log2 + 1 :=
      (Nat.pow_lt_pow_iff_right (by decide : 1 < 2)).mp (hnormal.trans_lt hhigh)
    omega

theorem roundMagnitude_magnitude {x : Finite} (h : x.mantissa ≠ 0) :
    roundMagnitude x.negative x.magnitude = .finite x := by
  have hpow : (2 : Rat) ^ x.exponent ≠ 0 := zpow_ne_zero _ (by norm_num)
  have hquotient : x.magnitude / 2 ^ x.exponent = (x.mantissa : Int) := by
    rw [magnitude, mul_div_cancel_right₀ _ hpow, Int.cast_natCast]
  have hlt := x.mantissa_lt
  unfold roundMagnitude
  dsimp only
  rw [exponent_eq h, hquotient, roundEven_intCast, Int.toNat_natCast, if_neg (by omega), assemble,
    dif_pos ⟨hlt, x.le_exponent, x.exponent_le, x.normal⟩]

end Finite

/-- A number that is not zero is the nearest to its value. -/
theorem nearest_toRat {x : Finite} (h : x.mantissa ≠ 0) : nearest x.toRat = .finite x := by
  have hpos := Finite.magnitude_pos h
  have hround := Finite.roundMagnitude_magnitude h
  unfold nearest
  rw [if_neg (mt Finite.toRat_eq_zero.mp h), Finite.toRat]
  cases hs : x.negative with
  | true =>
      rw [hs] at hround
      rw [if_pos rfl, if_pos (neg_neg_of_pos hpos), neg_neg, hround]
  | false =>
      rw [hs] at hround
      rw [if_neg Bool.false_ne_true, if_neg hpos.le.not_gt, hround]

/-- The value of a finite number. -/
def toRat? : Binary64 → Option Rat
  | finite x => some x.toRat
  | _ => none

theorem eq_finite_of_toRat? {a : Binary64} {r : Rat} (h : a.toRat? = some r) :
    ∃ x, a = finite x ∧ x.toRat = r := by
  cases a with
  | finite x => exact ⟨x, rfl, Option.some.inj h⟩
  | infinite s => cases h
  | nan => cases h

theorem toRat?_zero (negative : Bool) : (zero negative).toRat? = some 0 :=
  congrArg some (Finite.toRat_eq_zero.mpr rfl)

/-- A rational that is the value of a number is rounded to a number with this value. -/
theorem toRat?_nearest (x : Finite) : (nearest x.toRat).toRat? = some x.toRat := by
  by_cases h : x.mantissa = 0
  · rw [Finite.toRat_eq_zero.mpr h]
    exact toRat?_zero false
  · rw [nearest_toRat h]
    rfl

/-- With its digits moved to the front, as far as the exponent allows, what has at most 53 binary
digits is in the stored form. -/
theorem exists_magnitude_eq {m : Nat} {e : Int} (hm : m < 0x20000000000000) (he : -1074 ≤ e)
    (he' : e ≤ 971) (negative : Bool) :
    ∃ x : Finite, x.negative = negative ∧ x.magnitude = m * 2 ^ e := by
  by_cases hzero : m = 0
  · refine ⟨⟨negative, 0, -1074, by decide, by decide, by decide, .inl rfl⟩, rfl, ?_⟩
    rw [hzero, Nat.cast_zero, zero_mul]
    exact Finite.magnitude_eq_zero.mpr rfl
  have hlow : 2 ^ m.log2 ≤ m := Nat.log2_self_le hzero
  have hhigh : m < 2 ^ (m.log2 + 1) := Nat.lt_log2_self
  have hlog : m.log2 < 53 :=
    (Nat.pow_lt_pow_iff_right (by decide : 1 < 2)).mp (hlow.trans_lt hm)
  obtain ⟨shift, hshift, hbound⟩ : ∃ shift : Nat, shift ≤ 52 - m.log2 ∧
      (shift = 52 - m.log2 ∧ -1074 ≤ e - shift ∨ e - shift = -1074) := by
    by_cases hroom : -1074 ≤ e - (52 - m.log2 : Nat)
    · exact ⟨52 - m.log2, le_rfl, .inl ⟨rfl, hroom⟩⟩
    · exact ⟨(e + 1074).toNat, by omega, .inr (by omega)⟩
  have hlt : m * 2 ^ shift < 0x20000000000000 :=
    calc m * 2 ^ shift < 2 ^ (m.log2 + 1) * 2 ^ shift :=
          Nat.mul_lt_mul_of_pos_right hhigh (Nat.two_pow_pos _)
      _ = 2 ^ (m.log2 + 1 + shift) := (Nat.pow_add ..).symm
      _ ≤ 2 ^ 53 := Nat.pow_le_pow_right (by decide) (by omega)
  have hnormal : e - shift = -1074 ∨ 0x10000000000000 ≤ m * 2 ^ shift := by
    refine hbound.symm.imp_right fun h => ?_
    calc 2 ^ 52 = 2 ^ m.log2 * 2 ^ shift := by
          rw [← Nat.pow_add, h.1, Nat.add_sub_cancel' (by omega)]
      _ ≤ m * 2 ^ shift := Nat.mul_le_mul_right _ hlow
  refine ⟨⟨negative, m * 2 ^ shift, e - shift, hlt, by omega, by omega, hnormal⟩, rfl, ?_⟩
  show ((m * 2 ^ shift : Nat) : Rat) * 2 ^ (e - shift) = _
  rw [Nat.cast_mul, Nat.cast_pow, Nat.cast_ofNat, ← zpow_natCast, mul_assoc,
    ← zpow_add₀ (by norm_num), add_sub_cancel]

theorem exists_toRat_eq {n : Int} (h : n.natAbs ≤ maxSafeInteger) :
    ∃ x : Finite, x.toRat = n := by
  obtain ⟨x, hnegative, hmagnitude⟩ := exists_magnitude_eq (m := n.natAbs) (e := 0)
    (Nat.lt_succ_of_le h) (by decide) (by decide) (decide (n < 0))
  refine ⟨x, ?_⟩
  rw [Finite.toRat, hnegative, hmagnitude, zpow_zero, mul_one, ← Int.cast_natCast]
  split
  · next hneg =>
      have hneg := of_decide_eq_true hneg
      rw [Int.ofNat_natAbs_of_nonpos hneg.le, Int.cast_neg, neg_neg]
  · next hnonneg => rw [Int.natAbs_of_nonneg (by simpa using hnonneg)]

theorem toRat?_ofInt {n : Int} (h : n.natAbs ≤ maxSafeInteger) :
    (ofInt n).toRat? = some (n : Rat) := by
  obtain ⟨x, hx⟩ := exists_toRat_eq h
  rw [ofInt, ← hx, toRat?_nearest]

end Reckon.Binary64
