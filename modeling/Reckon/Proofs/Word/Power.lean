import Reckon.Proofs.Word.Residue
import Mathlib.Data.Nat.Size

/-!
# Powers of words

A power is computed by repeated squaring: base, result and exponent change together in every round,
and all of it is reduced on the way. What the rounds keep is the class of `result * base ^ exponent`
(`powerLoop_modEq`). What they use up is the exponent: each one takes its lowest binary digit away,
so there are as many rounds as it has digits, and never a further one.

Before the first round a signed format looks at the sign of the exponent. A word reads as negative
if its top bit is set, so the exponents from the middle of the range on are refused.
-/

namespace Reckon.Word

/-- What repeated squaring hands on from one round to the next. -/
structure Squaring where
  base : Nat
  result : Nat
  exponent : Nat

namespace Squaring

variable {m n : Nat} {s : Squaring}

/-- One round. The lowest binary digit of the exponent decides whether the base is multiplied in. -/
def round (m : Nat) (s : Squaring) : Squaring where
  base := s.base * s.base % m
  result := if s.exponent % 2 = 1 then s.result * s.base % m else s.result
  exponent := s.exponent / 2

/-- What the loop makes of a state. -/
def finish (m : Nat) (s : Squaring) : Nat :=
  powerLoop m s.base s.result s.exponent

theorem finish_of_exponent_eq_zero (h : s.exponent = 0) : s.finish m = s.result := by
  rw [finish, powerLoop, if_pos h]

/-- A round changes nothing of the outcome. A round too many does no harm either, for an exponent
of zero has no digit to multiply by. -/
theorem finish_round (m : Nat) (s : Squaring) : (s.round m).finish m = s.finish m := by
  by_cases h : s.exponent = 0
  · have hexponent : (s.round m).exponent = 0 := by rw [round, h]
    have hresult : (s.round m).result = s.result := by simp [round, h]
    rw [finish_of_exponent_eq_zero h, finish_of_exponent_eq_zero hexponent, hresult]
  · conv_rhs => rw [finish, powerLoop, if_neg h]
    rfl

theorem finish_iterate (m n : Nat) (s : Squaring) : ((round m)^[n] s).finish m = s.finish m := by
  induction n generalizing s with
  | zero => rfl
  | succ n ih => rw [Function.iterate_succ_apply, ih, finish_round]

theorem exponent_iterate (m n : Nat) (s : Squaring) :
    ((round m)^[n] s).exponent = s.exponent / 2 ^ n := by
  induction n generalizing s with
  | zero => simp
  | succ n ih =>
      rw [Function.iterate_succ_apply, ih, pow_succ', ← Nat.div_div_eq_div_mul]
      rfl

/-- The exponent is used up after as many rounds as it has binary digits, and not before. -/
theorem exponent_iterate_eq_zero_iff :
    ((round m)^[n] s).exponent = 0 ↔ s.exponent.size ≤ n := by
  rw [exponent_iterate, Nat.div_eq_zero_iff_lt (Nat.two_pow_pos n), Nat.size_le]

end Squaring

/-- The top bit of a residue decides the sign of its reading. -/
theorem reading_lt_zero_iff {width : Nat} {x : Int} (h0 : 0 ≤ x) (hlt : x < modulus width) :
    reading width x < 0 ↔ modulus (width - 1) ≤ x := by
  unfold reading
  rw [residue_eq_self h0 hlt]
  dsimp only
  split
  · next htop => exact iff_of_true (by omega) htop
  · next hlow => exact iff_of_false (by omega) hlow

/-- The power of a word is the power of integers, reduced to the width, for every exponent that the
format takes: a signed one refuses those that read as negative. The loop behind it ends for every
exponent, and is done when the binary digits of the exponent are. -/
theorem Format.pow_exact (f : Format) (base : Int) {exponent : Int}
    (h0 : 0 ≤ exponent) (hlt : exponent < 2 ^ f.width) :
    f.pow base exponent =
      (if f.signed = true ∧ 2 ^ (f.width - 1) ≤ exponent then .error .negativeExponent
        else .ok (base ^ exponent.toNat % 2 ^ f.width)) ∧
    ∀ s : Squaring,
      (∀ n, ((Squaring.round (modulus f.width))^[n] s).exponent = 0 ↔ s.exponent.size ≤ n) ∧
      powerLoop (modulus f.width) s.base s.result s.exponent =
        ((Squaring.round (modulus f.width))^[s.exponent.size] s).result := by
  constructor
  · rw [← modulus_eq] at hlt
    have hpower : f.residue (powerLoop (modulus f.width) (f.residue base).toNat 1 exponent.toNat) =
        base ^ exponent.toNat % 2 ^ f.width := by
      rw [← modulus_eq]
      exact residue_powerLoop f.width base exponent.toNat
    have hsign : f.reading exponent < 0 ↔ 2 ^ (f.width - 1) ≤ exponent := by
      rw [← modulus_eq]
      exact reading_lt_zero_iff h0 hlt
    unfold pow
    simp only [Bool.and_eq_true, decide_eq_true_eq, hsign, hpower]
  · intro s
    refine ⟨fun n => Squaring.exponent_iterate_eq_zero_iff, ?_⟩
    have hdone := Squaring.exponent_iterate_eq_zero_iff (m := modulus f.width).mpr
      (Nat.le_refl s.exponent.size)
    exact (Squaring.finish_iterate _ _ s).symm.trans (Squaring.finish_of_exponent_eq_zero hdone)

/-- At eight bits the word 251 is taken to the power 127 in both formats; the next exponent is for
the unsigned one alone. -/
theorem Format.pow_exact_byte :
    (0 ≤ (127 : Int) ∧ (127 : Int) < 2 ^ 8) ∧ (0 ≤ (128 : Int) ∧ (128 : Int) < 2 ^ 8) ∧
    pow ⟨8, true⟩ 251 127 = .ok 51 ∧ pow ⟨8, false⟩ 251 127 = .ok 51 ∧
    pow ⟨8, true⟩ 251 128 = .error .negativeExponent ∧ pow ⟨8, false⟩ 251 128 = .ok 1 := by
  have hlow : 0 ≤ (127 : Int) ∧ (127 : Int) < 2 ^ 8 := by decide
  have hhigh : 0 ≤ (128 : Int) ∧ (128 : Int) < 2 ^ 8 := by decide
  exact ⟨hlow, hhigh, (pow_exact ⟨8, true⟩ 251 hlow.1 hlow.2).1,
    (pow_exact ⟨8, false⟩ 251 hlow.1 hlow.2).1, (pow_exact ⟨8, true⟩ 251 hhigh.1 hhigh.2).1,
    (pow_exact ⟨8, false⟩ 251 hhigh.1 hhigh.2).1⟩

end Reckon.Word
