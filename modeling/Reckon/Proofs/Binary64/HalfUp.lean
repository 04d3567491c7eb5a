import Reckon.Proofs.Binary64.Decimals
import Reckon.Proofs.Binary64.Integers
import Mathlib.Algebra.Order.Floor.Ring

/-!
# Rounding halves up is exact

To round halves up, the distance to the integer below is compared with one half, and that distance
is a rounded difference. It is not always the exact one: above a tiny negative number lies zero,
below it minus one, and the distance of nearly one is rounded to one. So exactness cannot be had of
the difference, only of the comparison, and the two sides of one half need different arguments.

From one half on, the difference may be rounded, but `le_nearest` says that rounding never crosses
a number, and one half is one. Below one half the difference is exact: it is on the grid of the
number it was computed from, and not greater than that number in size, so it has a mantissa no
longer than the one that was given (`Finite.exists_toRat_eq_fract`).

The two integers that are converted, the one below and the answer, are less than one away from the
number. Such an integer is converted exactly, whatever its size: where numbers have fractions the
integers are safe, and elsewhere the integer is the number itself.
-/

namespace Reckon.Binary64

theorem le_roundEven {a : Rat} {n : Int} (h : (n : Rat) ≤ a) : n ≤ roundEven a := by
  have hfloor : n ≤ a.floor := Int.le_floor.mpr h
  unfold roundEven
  dsimp only
  split_ifs <;> omega

theorem le_assemble {x : Finite} {m : Nat} {e : Int} (h : x.toRat ≤ m * 2 ^ e) :
    le (.finite x) (assemble false m e) = true := by
  unfold assemble
  split
  · exact decide_eq_true h
  · rfl

/-- What rounding leaves of a mantissa may be carried, but it is not lost. -/
theorem le_roundMagnitude {x : Finite} {a : Rat} {n : Nat}
    (hn : (n : Rat) ≤ a / 2 ^ max (floorLog2 a - 52) (-1074))
    (hx : x.toRat ≤ n * 2 ^ max (floorLog2 a - 52) (-1074)) :
    le (.finite x) (roundMagnitude false a) = true := by
  unfold roundMagnitude
  dsimp only
  generalize max (floorLog2 a - 52) (-1074) = e at hn hx
  have hpow : (0 : Rat) < 2 ^ e := zpow_pos (by norm_num) e
  have hround : (n : Int) ≤ roundEven (a / 2 ^ e) := le_roundEven (by exact_mod_cast hn)
  generalize hm : (roundEven (a / 2 ^ e)).toNat = m
  have hle : x.toRat ≤ m * 2 ^ e :=
    hx.trans (mul_le_mul_of_nonneg_right (Nat.cast_le.mpr (by omega)) hpow.le)
  split
  · next hcarry =>
      refine le_assemble (hle.trans_eq ?_)
      rw [hcarry, zpow_add_one₀ (by norm_num)]
      push_cast
      ring
  · exact le_assemble hle

theorem le_nearest {x : Finite} {r : Rat} (hx : 0 < x.toRat) (h : x.toRat ≤ r) :
    le (.finite x) (nearest r) = true := by
  have hr : 0 < r := hx.trans_le h
  have hmantissa : x.mantissa ≠ 0 := mt Finite.toRat_eq_zero.mpr hx.ne'
  have hmagnitude : x.toRat = x.magnitude := by
    have hnonneg := x.magnitude_nonneg
    rw [Finite.toRat] at hx ⊢
    split at hx
    · linarith
    · next hsign => rw [if_neg hsign]
  have hlog : floorLog2 x.magnitude ≤ floorLog2 r := by
    have hlow := (floorLog2_spec (Finite.magnitude_pos hmantissa)).1
    have hlt := (hlow.trans (hmagnitude ▸ h)).trans_lt (floorLog2_spec hr).2
    exact Int.lt_add_one_iff.mp ((zpow_lt_zpow_iff_right₀ (by norm_num)).mp hlt)
  have hexponent := Finite.exponent_eq hmantissa
  rw [nearest_of_pos hr]
  set e := max (floorLog2 r - 52) (-1074) with he
  have hpow : (0 : Rat) < 2 ^ e := zpow_pos (by norm_num) e
  rcases (by omega : x.exponent = e ∨ x.exponent + 1 ≤ e ∧ e = floorLog2 r - 52) with
    hsame | ⟨hless, hnormal⟩
  · -- The mantissas are on one grid.
    have hvalue : x.toRat = x.mantissa * 2 ^ e := by rw [hmagnitude, Finite.magnitude, hsame]
    exact le_roundMagnitude ((le_div_iff₀ hpow).mpr (hvalue ▸ h)) hvalue.le
  · -- The rational is in a higher binade, and `2 ^ 52` is the least mantissa there.
    refine le_roundMagnitude (n := 0x10000000000000) ?_ ?_
    · rw [← he, le_div_iff₀ hpow, Nat.cast_ofNat,
        show (0x10000000000000 : Rat) = 2 ^ (52 : Int) by norm_num, ← zpow_add₀ (by norm_num),
        show 52 + e = floorLog2 r by omega]
      exact (floorLog2_spec hr).1
    · calc x.toRat = x.mantissa * 2 ^ x.exponent := hmagnitude
        _ ≤ 0x20000000000000 * 2 ^ x.exponent :=
            mul_le_mul_of_nonneg_right (by exact_mod_cast x.mantissa_lt.le)
              (zpow_pos (by norm_num) _).le
        _ = 0x10000000000000 * 2 ^ (x.exponent + 1) := by
            rw [zpow_add_one₀ (by norm_num)]
            ring
        _ ≤ 0x10000000000000 * 2 ^ e :=
            mul_le_mul_of_nonneg_left (zpow_le_zpow_right₀ (by norm_num) hless) (by norm_num)
        _ = ((0x10000000000000 : Nat) : Rat) * 2 ^ e := by norm_num

namespace Finite

variable {x : Finite}

theorem exists_toRat_eq_mul (x : Finite) : ∃ k : Int, x.toRat = k * 2 ^ x.exponent := by
  rw [toRat, magnitude]
  split
  · exact ⟨-x.mantissa, by rw [Int.cast_neg, Int.cast_natCast, neg_mul]⟩
  · exact ⟨x.mantissa, by rw [Int.cast_natCast]⟩

/-- Without an exponent below zero there are no digits for a fraction. -/
theorem exists_toRat_eq_intCast (h : 0 ≤ x.exponent) : ∃ n : Int, x.toRat = n := by
  obtain ⟨k, hk⟩ := x.exists_toRat_eq_mul
  refine ⟨k * 2 ^ x.exponent.toNat, ?_⟩
  rw [hk, Int.cast_mul, Int.cast_pow, Int.cast_ofNat, ← zpow_natCast, Int.toNat_of_nonneg h]

theorem abs_toRat_lt (h : x.exponent < 0) : |x.toRat| < 2 ^ (52 : Int) := by
  calc |x.toRat| = x.mantissa * 2 ^ x.exponent := (toRat_abs x).symm
    _ < 0x20000000000000 * 2 ^ x.exponent :=
        mul_lt_mul_of_pos_right (by exact_mod_cast x.mantissa_lt) (zpow_pos (by norm_num) _)
    _ ≤ 0x20000000000000 * 2 ^ (-1 : Int) :=
        mul_le_mul_of_nonneg_left (zpow_le_zpow_right₀ (by norm_num) (by omega)) (by norm_num)
    _ = 2 ^ (52 : Int) := by norm_num

end Finite

/-- An integer less than one away from a number is a number. -/
theorem isInteger_ofInt_of_near {x : Finite} {n : Int} (h : |(n : Rat) - x.toRat| < 1) :
    (ofInt n).IsInteger n := by
  by_cases hexponent : 0 ≤ x.exponent
  · obtain ⟨k, hk⟩ := Finite.exists_toRat_eq_intCast hexponent
    have hn : n = k := by
      rw [hk] at h
      have hlt : |n - k| < 1 := by exact_mod_cast h
      exact sub_eq_zero.mp (Int.abs_lt_one_iff.mp hlt)
    rw [IsInteger, ofInt, hn, ← hk, toRat?_nearest]
  · have hx := Finite.abs_toRat_lt (not_le.mp hexponent)
    have hn : |(n : Rat)| < 2 ^ (52 : Int) + 1 := by
      have htriangle := abs_add_le ((n : Rat) - x.toRat) x.toRat
      rw [sub_add_cancel] at htriangle
      linarith
    have hn : |n| < 0x10000000000001 := by
      norm_num at hn
      exact_mod_cast hn
    have hnat : n.natAbs < 0x10000000000001 := by
      rw [Int.abs_eq_natAbs] at hn
      exact_mod_cast hn
    exact isInteger_ofInt (hnat.le.trans (by decide))

theorem exists_half_eq : ∃ x : Finite, Guarded.half = .finite x ∧ x.toRat = 1 / 2 := by
  obtain ⟨x, hsign, hmagnitude⟩ :=
    exists_magnitude_eq (m := 1) (e := -1) (by decide) (by decide) (by decide) false
  have hvalue : x.toRat = 1 / 2 := by
    rw [Finite.toRat, hsign, if_neg Bool.false_ne_true, hmagnitude]
    norm_num
  refine ⟨x, ?_, hvalue⟩
  rw [Guarded.half, ← hvalue, nearest_toRat (mt Finite.toRat_eq_zero.mpr (by norm_num [hvalue]))]

theorem fract_le_abs {r : Rat} (h : Int.fract r < 1 / 2) : Int.fract r ≤ |r| := by
  have hr := Int.floor_add_fract r
  rcases le_or_gt 0 r with hnonneg | hneg
  · have hfloor : (0 : Rat) ≤ ⌊r⌋ := by exact_mod_cast Int.floor_nonneg.mpr hnonneg
    rw [abs_of_nonneg hnonneg]
    linarith
  · have hfloor : (⌊r⌋ : Rat) ≤ -1 := by
      have hlt : ⌊r⌋ < 0 := Int.floor_lt.mpr (by exact_mod_cast hneg)
      exact_mod_cast Int.le_sub_one_of_lt hlt
    rw [abs_of_neg hneg]
    linarith

namespace Finite

variable {x : Finite}

/-- The fraction is on the grid of the number. -/
theorem exists_fract_eq_mul (h : x.exponent < 0) :
    ∃ m : Nat, Int.fract x.toRat = m * 2 ^ x.exponent := by
  obtain ⟨k, hk⟩ := x.exists_toRat_eq_mul
  have hpow : (0 : Rat) < 2 ^ x.exponent := zpow_pos (by norm_num) _
  have hone : (2 : Rat) ^ (-x.exponent).toNat * 2 ^ x.exponent = 1 := by
    rw [← zpow_natCast, Int.toNat_of_nonneg (by omega), ← zpow_add₀ (by norm_num),
      neg_add_cancel, zpow_zero]
  obtain ⟨j, hj⟩ : ∃ j : Int, Int.fract x.toRat = j * 2 ^ x.exponent := by
    refine ⟨k - ⌊x.toRat⌋ * 2 ^ (-x.exponent).toNat, ?_⟩
    rw [Int.cast_sub, Int.cast_mul, Int.cast_pow, Int.cast_ofNat, sub_mul, ← hk, mul_assoc, hone,
      mul_one]
    rfl
  have hnonneg : (0 : Rat) ≤ j := nonneg_of_mul_nonneg_left (hj ▸ Int.fract_nonneg x.toRat) hpow
  obtain ⟨m, rfl⟩ := Int.eq_ofNat_of_zero_le (by exact_mod_cast hnonneg)
  exact ⟨m, by rw [hj, Int.cast_natCast]⟩

/-- A fraction below one half is a number. -/
theorem exists_toRat_eq_fract (h : Int.fract x.toRat < 1 / 2) :
    ∃ y : Finite, y.toRat = Int.fract x.toRat := by
  by_cases hexponent : 0 ≤ x.exponent
  · obtain ⟨k, hk⟩ := exists_toRat_eq_intCast hexponent
    obtain ⟨y, hy⟩ := exists_toRat_eq (n := 0) (by decide)
    exact ⟨y, by rw [hy, hk, Int.fract_intCast, Int.cast_zero]⟩
  · obtain ⟨m, hm⟩ := exists_fract_eq_mul (not_le.mp hexponent)
    have hle : m ≤ x.mantissa := by
      have hsize : (m : Rat) * 2 ^ x.exponent ≤ x.mantissa * 2 ^ x.exponent := by
        rw [← hm]
        exact (fract_le_abs h).trans_eq (toRat_abs x).symm
      exact_mod_cast le_of_mul_le_mul_right hsize (zpow_pos (by norm_num) _)
    obtain ⟨y, hsign, hmagnitude⟩ :=
      exists_magnitude_eq (hle.trans_lt x.mantissa_lt) x.le_exponent x.exponent_le false
    exact ⟨y, by rw [toRat, hsign, if_neg Bool.false_ne_true, hmagnitude, hm]⟩

end Finite

/-- The distance to the integer below is not rounded across one half. -/
theorem le_half_rounded_fract (x : Finite) (zeroNegative : Bool) :
    le Guarded.half (rounded (Int.fract x.toRat) zeroNegative) =
      decide (1 / 2 ≤ Int.fract x.toRat) := by
  obtain ⟨half, hhalf, hvalue⟩ := exists_half_eq
  by_cases hle : 1 / 2 ≤ Int.fract x.toRat
  · have hne : Int.fract x.toRat ≠ 0 := by linarith
    rw [hhalf, rounded, if_neg hne, decide_eq_true hle]
    exact le_nearest (by norm_num [hvalue]) (hvalue ▸ hle)
  · obtain ⟨y, hy⟩ := Finite.exists_toRat_eq_fract (not_le.mp hle)
    have hrounded : (rounded (Int.fract x.toRat) zeroNegative).toRat? = some y.toRat := by
      unfold rounded
      split
      · next hzero => rw [toRat?_zero, hy, hzero]
      · rw [← hy, toRat?_nearest]
    obtain ⟨z, hz, hzvalue⟩ := eq_finite_of_toRat? hrounded
    rw [hhalf, hz, ← hy, ← hzvalue, ← hvalue]
    rfl

theorem floor_add_half (r : Rat) :
    ⌊r + 1 / 2⌋ = if 1 / 2 ≤ Int.fract r then ⌊r⌋ + 1 else ⌊r⌋ := by
  have hr := Int.floor_add_fract r
  have hnonneg := Int.fract_nonneg r
  have hlt := Int.fract_lt_one r
  split
  · rw [Int.floor_eq_iff]
    push_cast
    constructor <;> linarith
  · rw [Int.floor_eq_iff]
    constructor <;> linarith

theorem sub_ofInt_floor (x : Finite) : ∃ zeroNegative,
    sub (.finite x) (ofInt x.toRat.floor) = rounded (Int.fract x.toRat) zeroNegative := by
  have hnear : |((x.toRat.floor : Int) : Rat) - x.toRat| < 1 := by
    rw [abs_sub_comm]
    show |Int.fract x.toRat| < 1
    rw [Int.abs_fract]
    exact Int.fract_lt_one _
  obtain ⟨y, hy, hvalue⟩ := eq_finite_of_toRat? (isInteger_ofInt_of_near hnear)
  rw [hy]
  refine ⟨x.negative && y.neg.negative, ?_⟩
  show rounded (x.toRat + y.neg.toRat) _ = _
  rw [Finite.toRat_neg, hvalue, ← sub_eq_add_neg]
  rfl

/-- The greatest negative number is at the distance one from minus one. -/
example : sub (.finite ⟨true, 1, -1074, by decide, by decide, by decide, .inl rfl⟩) (ofInt (-1)) =
    ofInt 1 := by
  decide +kernel

/-- What is computed for a number is the floor of the exact sum with one half. -/
theorem roundHalfUp_exact (x : Finite) :
    ∃ y : Finite, Guarded.roundHalfUp (.finite x) = .ok (.finite y) ∧
      y.toRat = (⌊x.toRat + 1 / 2⌋ : Int) ∧
      Guarded.call .round [.finite x] = .ok (.finite y) := by
  obtain ⟨zeroNegative, hsub⟩ := sub_ofInt_floor x
  have hround : Guarded.roundHalfUp (.finite x) = .ok (ofInt ⌊x.toRat + 1 / 2⌋) := by
    rw [Guarded.roundHalfUp, hsub, le_half_rounded_fract, floor_add_half]
    simp only [decide_eq_true_eq]
    rfl
  have hnear : |((⌊x.toRat + 1 / 2⌋ : Int) : Rat) - x.toRat| < 1 := by
    have hle := Int.floor_le (x.toRat + 1 / 2)
    have hlt := Int.lt_floor_add_one (x.toRat + 1 / 2)
    rw [abs_lt]
    constructor <;> linarith
  obtain ⟨y, hy, hvalue⟩ := eq_finite_of_toRat? (isInteger_ofInt_of_near hnear)
  rw [hy] at hround
  refine ⟨y, hround, hvalue, ?_⟩
  show Guarded.named Function.round.name (Guarded.roundHalfUp (.finite x)) = _
  rw [hround]
  rfl

end Reckon.Binary64
