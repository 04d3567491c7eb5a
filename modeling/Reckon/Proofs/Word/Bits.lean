import Reckon.Proofs.Word.Residue
import Mathlib.Data.Int.Bitwise
import Mathlib.Data.Nat.Bitwise

/-!
# Bits of residues

The bit operations are those of infinite two's complement, and a residue has the bits of its integer
up to the width (`testBit_residue`). What an operation makes of two bits in one place does not look
at any other place, so reducing the operands first changes no bit below the width, and the bits
below the width are all that a residue has (`residue_eq_of_testBit`).
-/

namespace Reckon.Word

theorem without_eq_ldiff (m n : Nat) : without m n = Nat.ldiff m n := by
  refine Nat.eq_of_testBit_eq fun k => ?_
  rw [without, Nat.testBit_xor, Nat.testBit_and, Nat.testBit_ldiff]
  cases m.testBit k <;> cases n.testBit k <;> rfl

theorem bitAnd_eq_land (x y : Int) : bitAnd x y = Int.land x y := by
  cases x <;> cases y <;> simp only [bitAnd, Int.land, without_eq_ldiff] <;> rfl

theorem bitOr_eq_lor (x y : Int) : bitOr x y = Int.lor x y := by
  cases x <;> cases y <;> simp only [bitOr, Int.lor, without_eq_ldiff]
  rfl

theorem bitXor_eq_xor (x y : Int) : bitXor x y = Int.xor x y := by
  cases x <;> cases y <;> rfl

theorem testBit_residue (width : Nat) (x : Int) (k : Nat) :
    (residue width x).testBit k = (decide (k < width) && x.testBit k) := by
  cases x with
  | ofNat m =>
      show ((m : Int) % ((modulus width : Nat) : Int)).testBit k =
        (decide (k < width) && m.testBit k)
      rw [← Int.natCast_emod]
      exact Nat.testBit_mod_two_pow m width k
  | negSucc m =>
      have hlt : m % 2 ^ width < 2 ^ width := Nat.mod_lt _ (modulus_pos width)
      have hres : residue width (.negSucc m) =
          ((modulus width - (m % modulus width + 1) : Nat) : Int) := by
        have hlt' : m % modulus width < modulus width := hlt
        rw [residue, Int.negSucc_emod m (by exact_mod_cast modulus_pos width)]
        omega
      rw [hres]
      show (2 ^ width - (m % 2 ^ width + 1)).testBit k = (decide (k < width) && !m.testBit k)
      rw [Nat.testBit_two_pow_sub_succ hlt, Nat.testBit_mod_two_pow]
      cases decide (k < width) <;> rfl

/-- Integers with the same bits below the width have the same residue. -/
theorem residue_eq_of_testBit {width : Nat} {x y : Int}
    (h : ∀ k, k < width → x.testBit k = y.testBit k) : residue width x = residue width y := by
  have hnat : (residue width x).toNat = (residue width y).toNat := by
    refine Nat.eq_of_testBit_eq fun k => ?_
    have hbit : (residue width x).testBit k = (residue width y).testBit k := by
      rw [testBit_residue, testBit_residue]
      by_cases hk : k < width
      · rw [h k hk]
      · simp [hk]
    rw [← Int.toNat_of_nonneg (residue_nonneg width x),
      ← Int.toNat_of_nonneg (residue_nonneg width y)] at hbit
    exact hbit
  have h0 := residue_nonneg width x
  have h1 := residue_nonneg width y
  omega

theorem residue_bitAnd (width : Nat) (x y : Int) :
    residue width (bitAnd (residue width x) (residue width y)) = residue width (Int.land x y) := by
  refine residue_eq_of_testBit fun k hk => ?_
  rw [bitAnd_eq_land, Int.testBit_land, Int.testBit_land, testBit_residue, testBit_residue]
  simp [hk]

theorem residue_bitOr (width : Nat) (x y : Int) :
    residue width (bitOr (residue width x) (residue width y)) = residue width (Int.lor x y) := by
  refine residue_eq_of_testBit fun k hk => ?_
  rw [bitOr_eq_lor, Int.testBit_lor, Int.testBit_lor, testBit_residue, testBit_residue]
  simp [hk]

theorem residue_bitXor (width : Nat) (x y : Int) :
    residue width (bitXor (residue width x) (residue width y)) = residue width (Int.xor x y) := by
  refine residue_eq_of_testBit fun k hk => ?_
  rw [bitXor_eq_xor, Int.testBit_lxor, Int.testBit_lxor, testBit_residue, testBit_residue]
  simp [hk]

end Reckon.Word
