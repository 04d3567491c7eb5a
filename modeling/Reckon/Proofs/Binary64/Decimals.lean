import Reckon.Binary64.Text
import Reckon.Proofs.Binary64.Nearest

/-!
# Decimals are read by their value

A decimal far outside the range of the format is told by its size, before any power of ten is
formed. The bounds are on the safe side: from `2 ^ 1024` on the nearest number is an infinity, and
below `2 ^ -1075` it is zero. So in all cases a decimal is read as the number nearest to its value,
however it is written. The shortest decimal of a number is then read as that number: the points
of a grid are only taken if they are, and the last resort is exact.
-/

namespace Reckon.Binary64

theorem nearest_of_pos {r : Rat} (h : 0 < r) : nearest r = roundMagnitude false r := by
  rw [nearest, if_neg h.ne', if_neg h.not_gt]

theorem assemble_of_lt {negative : Bool} {m : Nat} {e : Int} (h : 971 < e) :
    assemble negative m e = .infinite negative := by
  rw [assemble, dif_neg]
  rintro ⟨-, -, hle, -⟩
  omega

theorem nearest_of_large {r : Rat} (h : (2 : Rat) ^ (1024 : Int) ≤ r) :
    nearest r = .infinite false := by
  have hpos : 0 < r := (zpow_pos (by norm_num) _).trans_le h
  have hlog : 1024 < floorLog2 r + 1 :=
    (zpow_lt_zpow_iff_right₀ (by norm_num)).mp (h.trans_lt (floorLog2_spec hpos).2)
  rw [nearest_of_pos hpos, roundMagnitude]
  split
  · exact assemble_of_lt (by omega)
  · exact assemble_of_lt (by omega)

theorem roundEven_of_lt_half {a : Rat} (h0 : 0 ≤ a) (h : a < 1 / 2) : roundEven a = 0 := by
  have hfloor : a.floor = 0 := Int.floor_eq_zero_iff.mpr ⟨h0, by linarith⟩
  unfold roundEven
  dsimp only
  rw [hfloor, if_pos (by simpa using h)]

theorem nearest_of_small {r : Rat} (h0 : 0 < r) (h : r < (2 : Rat) ^ (-1075 : Int)) :
    nearest r = zero false := by
  have hlog : floorLog2 r < -1075 :=
    (zpow_lt_zpow_iff_right₀ (by norm_num)).mp ((floorLog2_spec h0).1.trans_lt h)
  have hexponent : max (floorLog2 r - 52) (-1074) = -1074 := by omega
  have hpow : (0 : Rat) < 2 ^ (-1074 : Int) := zpow_pos (by norm_num) _
  have hhalf : r / 2 ^ (-1074 : Int) < 1 / 2 := by
    rw [div_lt_iff₀ hpow]
    refine h.trans_eq ?_
    rw [show (-1075 : Int) = -1 + -1074 by norm_num, zpow_add₀ (by norm_num), zpow_neg_one,
      one_div]
  rw [nearest_of_pos h0, roundMagnitude, hexponent, roundEven_of_lt_half (div_pos h0 hpow).le hhalf]
  rfl

/-- Three binary digits are less than a decimal one. -/
theorem two_zpow_le_ten_zpow {k : Int} (h : 0 ≤ k) : (2 : Rat) ^ (3 * k) ≤ 10 ^ k := by
  rw [zpow_mul]
  exact zpow_le_zpow_left₀ h (by norm_num) (by norm_num)

theorem ten_zpow_le_two_zpow {k : Int} (h : k ≤ 0) : (10 : Rat) ^ k ≤ 2 ^ (3 * k) := by
  have hpos : (0 : Rat) < 2 ^ (3 * -k) := zpow_pos (by norm_num) _
  have hinv := inv_anti₀ hpos (two_zpow_le_ten_zpow (k := -k) (by omega))
  rwa [← zpow_neg, ← zpow_neg, neg_neg, Int.mul_neg, neg_neg] at hinv

theorem ofDecimal_eq_nearest (d : Decimal) : ofDecimal d = nearest d.toRat := by
  have hten : (0 : Rat) < 10 ^ d.exponent := zpow_pos (by norm_num) _
  have hone : (1 : Rat) < 2 := by norm_num
  unfold ofDecimal
  split
  · next hzero =>
      rw [Decimal.toRat, hzero, Nat.cast_zero, zero_mul]
      rfl
  · next hdigits =>
      have hle : (1 : Rat) ≤ d.digits := Nat.one_le_cast.mpr (Nat.pos_of_ne_zero hdigits)
      split
      · next hlarge =>
          refine (nearest_of_large ?_).symm
          calc (2 : Rat) ^ (1024 : Int) ≤ 2 ^ (3 * d.exponent) :=
                zpow_le_zpow_right₀ hone.le (by omega)
            _ ≤ 10 ^ d.exponent := two_zpow_le_ten_zpow (by omega)
            _ ≤ d.toRat := le_mul_of_one_le_left hten.le hle
      · split
        · next hsmall =>
            refine (nearest_of_small (mul_pos (by linarith) hten) ?_).symm
            calc d.toRat < 2 ^ ((d.digits.log2 : Int) + 1) * 10 ^ d.exponent :=
                  mul_lt_mul_of_pos_right (two_zpow_log2 hdigits).2 hten
              _ ≤ 2 ^ ((d.digits.log2 : Int) + 1) * 2 ^ (3 * d.exponent) :=
                  mul_le_mul_of_nonneg_left (ten_zpow_le_two_zpow (by omega))
                    (zpow_pos (by norm_num) _).le
              _ = 2 ^ ((d.digits.log2 : Int) + 1 + 3 * d.exponent) :=
                  (zpow_add₀ (by norm_num) _ _).symm
              _ ≤ 2 ^ (-1075 : Int) := zpow_le_zpow_right₀ hone.le (by omega)
        · rfl

namespace Finite

variable {x : Finite} {d : Decimal}

theorem toRat_toDecimal (x : Finite) : x.toDecimal.toRat = x.magnitude := by
  unfold toDecimal
  split
  · next hle =>
      show ((x.mantissa * 2 ^ x.exponent.toNat : Nat) : Rat) * 10 ^ (0 : Int) = _
      rw [zpow_zero, mul_one, Nat.cast_mul, Nat.cast_pow, ← zpow_natCast, Int.toNat_of_nonneg hle]
      rfl
  · next hlt =>
      have hfive : (5 : Rat) ^ x.exponent ≠ 0 := zpow_ne_zero _ (by norm_num)
      have hten : (10 : Rat) ^ x.exponent = 5 ^ x.exponent * 2 ^ x.exponent := by
        rw [← mul_zpow]
        norm_num
      show ((x.mantissa * 5 ^ (-x.exponent).toNat : Nat) : Rat) * 10 ^ x.exponent = _
      rw [Nat.cast_mul, Nat.cast_pow, ← zpow_natCast, Int.toNat_of_nonneg (by omega), hten,
        Nat.cast_ofNat, zpow_neg, mul_assoc, inv_mul_cancel_left₀ hfive]
      rfl

theorem readsBack_toDecimal (h : x.mantissa ≠ 0) : x.readsBack x.toDecimal = true := by
  have habs : x.abs.toRat = x.magnitude := rfl
  rw [readsBack, beq_iff_eq, ofDecimal_eq_nearest, toRat_toDecimal, ← habs]
  exact nearest_toRat h

theorem readsBack_of_onGrid? {grid : Int} (h : x.onGrid? grid = some d) :
    x.readsBack d = true := by
  unfold onGrid? at h
  dsimp only at h
  split at h
  · cases h
  · next hbelow _ =>
      cases h
      exact hbelow
  · next _ habove =>
      cases h
      exact habove
  · next hbelow habove =>
      split at h
      · cases h
        exact hbelow
      · cases h
        exact habove

/-- What is written is read as the number. -/
theorem ofDecimal_shortest (h : x.mantissa ≠ 0) : ofDecimal x.shortest = .finite x.abs := by
  refine beq_iff_eq.mp (show x.readsBack x.shortest = true from ?_)
  unfold shortest
  dsimp only
  cases hfind : (List.range 17).findSome? fun n =>
      x.onGrid? (decimalScale x.magnitude - (n + 1 : Nat)) with
  | none => exact readsBack_toDecimal h
  | some d =>
      obtain ⟨n, -, hn⟩ := List.exists_of_findSome?_eq_some hfind
      exact readsBack_of_onGrid? hn

end Finite

end Reckon.Binary64
