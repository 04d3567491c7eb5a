import Reckon.Word
import Mathlib.Algebra.Order.Ring.Int
import Mathlib.Data.Int.ModEq

/-!
# Residues, and arithmetic up to the modulus

A word is a class of integers modulo `2 ^ width`, and `residue` picks the member that is kept. So
each operation that is a polynomial in its operands may be carried out on any members and reduced
afterwards: `residue_eq_iff` turns an equation of residues into a congruence, and from there
Mathlib's congruences do the rest. Repeated squaring is the one loop among the operations; its
invariant is that `result * base ^ exponent` keeps its class.
-/

namespace Reckon.Word

theorem modulus_eq (width : Nat) : (modulus width : Int) = 2 ^ width := by
  simp [modulus]

theorem residue_eq_iff {width : Nat} {x y : Int} :
    residue width x = residue width y ↔ x ≡ y [ZMOD modulus width] := Iff.rfl

theorem residue_modEq (width : Nat) (x : Int) : residue width x ≡ x [ZMOD modulus width] :=
  residue_eq_iff.mp (residue_residue width x)

/-- Integers that are kept as themselves. -/
theorem residue_eq_self {width : Nat} {x : Int} (h0 : 0 ≤ x) (hlt : x < modulus width) :
    residue width x = x :=
  Int.emod_eq_of_lt h0 hlt

theorem residue_add (width : Nat) (x y : Int) :
    residue width (residue width x + residue width y) = residue width (x + y) :=
  residue_eq_iff.mpr ((residue_modEq width x).add (residue_modEq width y))

theorem residue_sub (width : Nat) (x y : Int) :
    residue width (residue width x - residue width y) = residue width (x - y) :=
  residue_eq_iff.mpr ((residue_modEq width x).sub (residue_modEq width y))

theorem residue_mul (width : Nat) (x y : Int) :
    residue width (residue width x * residue width y) = residue width (x * y) :=
  residue_eq_iff.mpr ((residue_modEq width x).mul (residue_modEq width y))

theorem residue_mul_left (width : Nat) (x y : Int) :
    residue width (residue width x * y) = residue width (x * y) :=
  residue_eq_iff.mpr ((residue_modEq width x).mul_right y)

theorem residue_neg {width : Nat} {x y : Int} (h : residue width x = residue width y) :
    residue width (-x) = residue width (-y) :=
  residue_eq_iff.mpr (residue_eq_iff.mp h).neg

theorem residue_complement (width : Nat) (x : Int) :
    residue width (complement (residue width x)) = residue width (-x - 1) :=
  residue_eq_iff.mpr ((residue_modEq width x).neg.sub (Int.ModEq.refl 1))

theorem residue_pow (width : Nat) (x : Int) (n : Nat) :
    residue width (residue width x ^ n) = residue width (x ^ n) :=
  residue_eq_iff.mpr ((residue_modEq width x).pow n)

/-- A narrower residue forgets nothing that a wider one still has. -/
theorem residue_residue_of_le {narrow wide : Nat} (h : narrow ≤ wide) (x : Int) :
    residue narrow (residue wide x) = residue narrow x := by
  have hdvd : (modulus narrow : Int) ∣ modulus wide := by
    rw [modulus_eq, modulus_eq]
    exact pow_dvd_pow 2 h
  exact Int.emod_emod_of_dvd x hdvd

/-- From a width of six on, reducing a count of places does not change it modulo 64. -/
theorem shiftCount_residue {width : Nat} (hw : 6 ≤ width) (y : Int) :
    shiftCount (residue width y) = shiftCount y := by
  have h := residue_residue_of_le hw y
  change residue width y % 64 = y % 64 at h
  rw [shiftCount, shiftCount, h]

/-- Each round halves the exponent and keeps the class of `result * base ^ exponent`. -/
theorem powerLoop_modEq (m base result exponent : Nat) :
    powerLoop m base result exponent ≡ result * base ^ exponent [MOD m] := by
  induction exponent using Nat.strongRecOn generalizing base result with
  | ind exponent ih =>
      rw [powerLoop]
      by_cases h0 : exponent = 0
      · rw [if_pos h0, h0, pow_zero, Nat.mul_one]
      · rw [if_neg h0]
        refine (ih (exponent / 2) (by omega) _ _).trans ?_
        have hsquare :
            (base * base % m) ^ (exponent / 2) ≡ base ^ (2 * (exponent / 2)) [MOD m] := by
          rw [pow_mul, pow_two]
          exact (Nat.mod_modEq _ m).pow _
        by_cases hodd : exponent % 2 = 1
        · have hexp : exponent = 2 * (exponent / 2) + 1 := by omega
          rw [if_pos hodd]
          calc (result * base % m) * (base * base % m) ^ (exponent / 2)
              ≡ result * base * base ^ (2 * (exponent / 2)) [MOD m] :=
                (Nat.mod_modEq _ m).mul hsquare
            _ = result * base ^ (2 * (exponent / 2) + 1) := by rw [pow_succ]; ac_rfl
            _ = result * base ^ exponent := by rw [← hexp]
        · have hexp : exponent = 2 * (exponent / 2) := by omega
          rw [if_neg hodd]
          calc result * (base * base % m) ^ (exponent / 2)
              ≡ result * base ^ (2 * (exponent / 2)) [MOD m] := hsquare.mul_left result
            _ = result * base ^ exponent := by rw [← hexp]

/-- Repeated squaring computes the power of any member of the class of its base. -/
theorem residue_powerLoop (width : Nat) (x : Int) (n : Nat) :
    residue width (powerLoop (modulus width) (residue width x).toNat 1 n) =
      residue width (x ^ n) := by
  have h : (powerLoop (modulus width) (residue width x).toNat 1 n : Int) ≡
      residue width x ^ n [ZMOD modulus width] := by
    have hloop := Int.natCast_modEq_iff.mpr
      (powerLoop_modEq (modulus width) (residue width x).toNat 1 n)
    rw [Nat.one_mul, Nat.cast_pow, Int.toNat_of_nonneg (residue_nonneg width x)] at hloop
    exact hloop
  rw [residue_eq_iff.mpr h, residue_pow]

theorem modulus_succ (n : Nat) : modulus (n + 1) = 2 * modulus n := by
  show 2 ^ (n + 1) = 2 * 2 ^ n
  rw [pow_succ, Nat.mul_comm]

/-- The signed range and the residues split a class in the same place. -/
theorem modulus_eq_double {width : Nat} (hw : 0 < width) :
    modulus width = 2 * modulus (width - 1) := by
  obtain ⟨n, rfl⟩ : ∃ n, width = n + 1 := ⟨width - 1, by omega⟩
  exact modulus_succ n

/-- The reading of a residue is the integer of the signed range in its class. -/
theorem reading_residue {width : Nat} (hw : 0 < width) {x : Int}
    (hlow : -(modulus (width - 1) : Int) ≤ x) (hhigh : x < modulus (width - 1)) :
    reading width (residue width x) = x := by
  have hm := modulus_eq_double hw
  unfold reading
  rw [residue_residue]
  by_cases hneg : x < 0
  · have hres : residue width x = x + modulus width := by
      have hself : residue width (x + modulus width) = x + modulus width :=
        residue_eq_self (by omega) (by omega)
      rw [← hself]
      exact (Int.add_emod_right x _).symm
    rw [hres]
    dsimp only
    rw [if_pos (by omega)]
    omega
  · rw [residue_eq_self (by omega) (by omega)]
    dsimp only
    rw [if_neg (by omega)]

end Reckon.Word
