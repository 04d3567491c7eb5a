import Reckon.Proofs.Binary64.Nearest
import Reckon.Binary64.Guarded
import Mathlib.Data.Rat.Floor

/-!
# Safe integers are computed with exactly

An operation on finite numbers rounds the exact rational once. So if the operands are integers and
the exact answer is an integer up to `2 ^ 53 - 1` in size, nothing is lost. That the remainder is
one of these operations rests on the quotient: cut off toward zero, that of the rationals is that of
the integers.
-/

namespace Reckon.Binary64

namespace Finite

theorem toRat_neg (x : Finite) : x.neg.toRat = -x.toRat := by
  have hmagnitude : x.neg.magnitude = x.magnitude := rfl
  rw [toRat, toRat, hmagnitude]
  show (if (!x.negative) = true then _ else _) = _
  cases x.negative <;> simp

theorem toRat_abs (x : Finite) : x.abs.toRat = |x.toRat| := by
  have hmagnitude : x.abs.toRat = x.magnitude := rfl
  rw [hmagnitude, toRat]
  split
  · rw [abs_neg, abs_of_nonneg x.magnitude_nonneg]
  · rw [abs_of_nonneg x.magnitude_nonneg]

end Finite

variable {a b : Binary64} {m n : Int}

/-- The number is finite, and its value the integer. -/
def IsInteger (a : Binary64) (n : Int) : Prop :=
  a.toRat? = some (n : Rat)

theorem IsInteger.neg (ha : a.IsInteger m) : (neg a).IsInteger (-m) := by
  obtain ⟨x, rfl, hx⟩ := eq_finite_of_toRat? ha
  exact congrArg some (by rw [Finite.toRat_neg, hx, Int.cast_neg])

theorem IsInteger.abs (ha : a.IsInteger m) : (abs a).IsInteger |m| := by
  obtain ⟨x, rfl, hx⟩ := eq_finite_of_toRat? ha
  exact congrArg some (by rw [Finite.toRat_abs, hx, Int.cast_abs])

theorem isInteger_ofInt (h : n.natAbs ≤ maxSafeInteger) : (ofInt n).IsInteger n :=
  toRat?_ofInt h

theorem isInteger_rounded {r : Rat} (hr : r = n) (h : n.natAbs ≤ maxSafeInteger)
    (zeroNegative : Bool) : (rounded r zeroNegative).IsInteger n := by
  unfold rounded
  split
  · next hzero =>
      rw [IsInteger, toRat?_zero, ← hr, hzero]
  · rw [hr]
    exact isInteger_ofInt h

theorem IsInteger.add (ha : a.IsInteger m) (hb : b.IsInteger n)
    (h : (m + n).natAbs ≤ maxSafeInteger) : (add a b).IsInteger (m + n) := by
  obtain ⟨x, rfl, hx⟩ := eq_finite_of_toRat? ha
  obtain ⟨y, rfl, hy⟩ := eq_finite_of_toRat? hb
  exact isInteger_rounded (by rw [hx, hy, Int.cast_add]) h _

theorem IsInteger.sub (ha : a.IsInteger m) (hb : b.IsInteger n)
    (h : (m - n).natAbs ≤ maxSafeInteger) : (sub a b).IsInteger (m - n) := by
  rw [Int.sub_eq_add_neg] at h ⊢
  exact ha.add hb.neg h

theorem IsInteger.mul (ha : a.IsInteger m) (hb : b.IsInteger n)
    (h : (m * n).natAbs ≤ maxSafeInteger) : (mul a b).IsInteger (m * n) := by
  obtain ⟨x, rfl, hx⟩ := eq_finite_of_toRat? ha
  obtain ⟨y, rfl, hy⟩ := eq_finite_of_toRat? hb
  exact isInteger_rounded (by rw [hx, hy, Int.cast_mul]) h _

theorem truncate_neg (r : Rat) : truncate (-r) = -truncate r := by
  unfold truncate
  rcases lt_trichotomy r 0 with h | h | h
  · rw [if_neg (by linarith), if_pos h, neg_neg]
  · subst h
    rfl
  · rw [if_pos (by linarith), if_neg (by linarith), neg_neg]

theorem truncate_natCast_div (m n : Nat) : truncate ((m : Rat) / n) = (m / n : Nat) := by
  have hnonneg : (0 : Rat) ≤ m / n := by positivity
  rw [truncate, if_neg hnonneg.not_gt]
  show ⌊(m : Rat) / n⌋ = _
  norm_cast

/-- The quotient of the integers is the one between zero and the quotient of the rationals. -/
theorem truncate_intCast_div (m n : Int) : truncate ((m : Rat) / n) = m.tdiv n := by
  obtain ⟨k, rfl | rfl⟩ := m.eq_nat_or_neg <;> obtain ⟨l, rfl | rfl⟩ := n.eq_nat_or_neg
  all_goals
    simp only [Int.cast_neg, Int.cast_natCast, neg_div, div_neg, truncate_neg,
      truncate_natCast_div, Int.neg_tdiv, Int.tdiv_neg]
    rfl

theorem IsInteger.isZero (hb : b.IsInteger n) (hn : n ≠ 0) : b.isZero = false := by
  obtain ⟨y, rfl, hy⟩ := eq_finite_of_toRat? hb
  have hmantissa : y.mantissa ≠ 0 := by
    rw [Ne, ← Finite.toRat_eq_zero, hy]
    exact_mod_cast hn
  exact beq_eq_false_iff_ne.mpr hmantissa

theorem IsInteger.rem (ha : a.IsInteger m) (hb : b.IsInteger n) (hn : n ≠ 0)
    (h : (m.tmod n).natAbs ≤ maxSafeInteger) : (rem a b).IsInteger (m.tmod n) := by
  have hzero := hb.isZero hn
  obtain ⟨x, rfl, hx⟩ := eq_finite_of_toRat? ha
  obtain ⟨y, rfl, hy⟩ := eq_finite_of_toRat? hb
  have hmantissa : y.mantissa ≠ 0 := beq_eq_false_iff_ne.mp hzero
  show IsInteger (if y.mantissa = 0 then nan else rounded _ x.negative) _
  rw [if_neg hmantissa]
  refine isInteger_rounded ?_ h _
  rw [hx, hy, truncate_intCast_div, Int.tmod_def, Int.cast_sub, Int.cast_mul]

namespace Guarded

theorem check_of_isInteger (h : a.IsInteger n) (operation : String) :
    check operation a = .ok a := by
  obtain ⟨x, rfl, -⟩ := eq_finite_of_toRat? h
  rfl

theorem mod_of_isInteger (ha : a.IsInteger m) (hb : b.IsInteger n) (hn : n ≠ 0)
    (h : (m.tmod n).natAbs ≤ maxSafeInteger) : mod a b = .ok (rem a b) := by
  have hdividend : infiniteDividend a b = false := by
    obtain ⟨x, rfl, -⟩ := eq_finite_of_toRat? ha
    rfl
  rw [mod, hb.isZero hn, hdividend, if_neg (by decide), if_neg (by decide),
    check_of_isInteger (ha.rem hb hn h)]

end Guarded

end Reckon.Binary64
