import Reckon.Proofs.Readings

/-!
# Quotient and remainder of words

The quotient and the remainder are computed apart, each from the signs and sizes of its operands,
and each is wrapped on its own. That they belong together is a matter of their readings, where both
are those of division toward zero (`agree_div`, `agree_mod`): the remainder is always in range, for
it is less than the divisor, and so is the quotient but for one case. The least reading divided by
`-1` is one too great, and wraps to the least reading again.
-/

namespace Reckon.Word.Format

variable {f : Format} {a b x y : Int}

theorem wrap_eq_self (hw : 0 < f.width) (hx : f.InRange x) : f.wrap x = x :=
  inRange_unique hw (inRange_wrap hw x) hx (residue_wrap f x)

/-- Only the class of an integer counts for what it wraps to. -/
theorem wrap_residue (hw : 0 < f.width) (x : Int) : f.wrap (f.residue x) = f.wrap x := by
  refine inRange_unique hw (inRange_wrap hw _) (inRange_wrap hw x) ?_
  rw [residue_wrap, residue_wrap]
  exact Word.residue_residue f.width x

theorem natAbs_tmod_lt (x : Int) (hy : y ≠ 0) : (x.tmod y).natAbs < y.natAbs := by
  rw [Int.natAbs_tmod]
  exact Nat.mod_lt _ (Int.natAbs_pos.mpr hy)

theorem inRange_tmod (hx : f.InRange x) (hy : f.InRange y) (hne : y ≠ 0) :
    f.InRange (x.tmod y) := by
  have hlt := natAbs_tmod_lt x hne
  unfold InRange at hx hy ⊢
  split at hx
  · next hs =>
      rw [if_pos hs] at hy ⊢
      omega
  · next hs =>
      rw [if_neg hs] at hy ⊢
      have h0 := Int.tmod_nonneg y hx.1
      omega

/-- Division by anything but `1` and `-1` at least halves. -/
theorem natAbs_tdiv_le_half (x : Int) (hne : y ≠ 0) (hone : y ≠ 1) (hminus : y ≠ -1) :
    (x.tdiv y).natAbs ≤ x.natAbs / 2 := by
  rw [Int.natAbs_tdiv]
  exact Nat.div_le_div_left (by omega) (by decide)

theorem inRange_tdiv (hx : f.InRange x) (hy : f.InRange y)
    (h : ¬ (f.signed = true ∧ x = -2 ^ (f.width - 1) ∧ y = -1)) : f.InRange (x.tdiv y) := by
  have hle := Int.natAbs_tdiv_le_natAbs x y
  unfold InRange at hx hy ⊢
  split at hx
  · next hs =>
      rw [if_pos hs]
      by_cases hzero : y = 0
      · rw [hzero, Int.tdiv_zero]
        omega
      · by_cases hone : y = 1
        · rw [hone, Int.tdiv_one]
          exact hx
        · by_cases hminus : y = -1
          · have hne : x ≠ -2 ^ (f.width - 1) := fun hleast => h ⟨hs, hleast, hminus⟩
            rw [hminus, Int.tdiv_neg, Int.tdiv_one]
            omega
          · have hhalf := natAbs_tdiv_le_half x hzero hone hminus
            omega
  · next hs =>
      rw [if_neg hs] at hy ⊢
      have h0 := Int.tdiv_nonneg hx.1 hy.1
      omega

/-- `Q` and `R` are quotient and remainder of `A` and `B` toward zero, but that the quotient of the
least integer by `-1` is the least integer. -/
structure Truncated (least A B Q R : Int) : Prop where
  size : |R| < |B|
  sign : R = 0 ∨ R.sign = A.sign
  whole : if A = least ∧ B = -1 then Q = A ∧ R = 0 else A = Q * B + R

theorem wrap_least (hs : f.signed = true) (hw : 0 < f.width) :
    f.wrap (2 ^ (f.width - 1)) = -2 ^ (f.width - 1) := by
  have hpos := modulus_pos (f.width - 1)
  have hleast : f.InRange (-2 ^ (f.width - 1)) := by
    rw [InRange, if_pos hs, ← modulus_eq]
    omega
  refine inRange_unique hw (inRange_wrap hw _) hleast ?_
  rw [residue_wrap]
  have hdouble : (modulus f.width : Int) = 2 * modulus (f.width - 1) := by
    exact_mod_cast modulus_eq_double hw
  rw [← modulus_eq]
  show Word.residue f.width _ = Word.residue f.width _
  rw [residue_eq_iff, Int.modEq_iff_dvd]
  exact ⟨-1, by omega⟩

theorem truncated_readings (hs : f.signed = true) (hw : 0 < f.width) (hx : f.InRange x)
    (hy : f.InRange y) (hne : y ≠ 0) :
    Truncated (-2 ^ (f.width - 1)) x y (f.wrap (x.tdiv y)) (f.wrap (x.tmod y)) := by
  have hlt := natAbs_tmod_lt x hne
  have hmod := wrap_eq_self hw (inRange_tmod hx hy hne)
  refine ⟨?_, ?_, ?_⟩
  · rw [hmod, Int.abs_eq_natAbs, Int.abs_eq_natAbs]
    omega
  · rw [hmod]
    by_cases hdvd : y ∣ x
    · exact .inl (Int.tmod_eq_zero_of_dvd hdvd)
    · exact .inr (by rw [Int.sign_tmod, if_neg hdvd])
  · split
    · next hleast =>
        obtain ⟨rfl, rfl⟩ := hleast
        rw [hmod, Int.tdiv_neg, Int.tdiv_one, Int.neg_neg, wrap_least hs hw, Int.tmod_neg,
          Int.tmod_one]
        exact ⟨rfl, rfl⟩
    · next hleast =>
        have hdiv := wrap_eq_self hw (inRange_tdiv hx hy fun h => hleast h.2)
        rw [hdiv, hmod]
        exact (Int.tdiv_mul_add_tmod x y).symm

/-- Canonical words `q` and `r` that belong together as quotient and remainder of `a` and `b`. -/
structure Divided (f : Format) (a b q r : Int) : Prop where
  quotient : 0 ≤ q ∧ q < 2 ^ f.width
  remainder : 0 ≤ r ∧ r < 2 ^ f.width
  congruent : (q * b + r) % 2 ^ f.width = a
  unsigned : f.signed = false → r < b ∧ q * b + r = a
  signed : f.signed = true → Truncated (-2 ^ (f.width - 1)) (a.bmod (2 ^ f.width))
    (b.bmod (2 ^ f.width)) (q.bmod (2 ^ f.width)) (r.bmod (2 ^ f.width))

theorem eq_ok_of_agree {z : Int} {w : Except EvalError Int}
    (h : Agree f.Reads w ((Except.ok z : Except EvalError Int).map f.wrap)) :
    w = .ok (f.residue z) := by
  cases h with
  | ok hreads => rw [hreads.1, residue_wrap]

theorem canonical_residue (f : Format) (x : Int) :
    0 ≤ f.residue x ∧ f.residue x < 2 ^ f.width := by
  rw [← modulus_eq]
  exact ⟨residue_nonneg f.width x, residue_lt f.width x⟩

/-- Whatever words read as, the residues of quotient and remainder of the readings are theirs. -/
theorem divided_of_reads (hw : 0 < f.width) (ha : f.Reads a x) (hb : f.Reads b y) (hne : y ≠ 0) :
    f.Divided a b (f.residue (x.tdiv y)) (f.residue (x.tmod y)) where
  quotient := canonical_residue f _
  remainder := canonical_residue f _
  congruent := by
    have hwhole : f.residue (x.tdiv y) * b + f.residue (x.tmod y) ≡ x [ZMOD modulus f.width] := by
      rw [hb.1]
      calc f.residue (x.tdiv y) * f.residue y + f.residue (x.tmod y)
          ≡ x.tdiv y * y + x.tmod y [ZMOD modulus f.width] :=
            ((residue_modEq f.width _).mul (residue_modEq f.width y)).add (residue_modEq f.width _)
        _ = x := Int.tdiv_mul_add_tmod x y
    rw [ha.1, ← modulus_eq]
    exact hwhole
  unsigned := by
    intro hs
    obtain ⟨rfl, ha0, -⟩ := ha.unsigned hs
    obtain ⟨rfl, hb0, -⟩ := hb.unsigned hs
    have hnot : ¬ (f.signed = true ∧ a = -2 ^ (f.width - 1) ∧ b = -1) := by simp [hs]
    rw [residue_eq_self hs (inRange_tdiv ha.2 hb.2 hnot),
      residue_eq_self hs (inRange_tmod ha.2 hb.2 hne)]
    exact ⟨Int.tmod_lt_of_pos a (by omega), Int.tdiv_mul_add_tmod a b⟩
  signed := by
    intro hs
    have hwrap (z : Int) : z.bmod (2 ^ f.width) = f.wrap z := by rw [wrap, if_pos hs]
    rw [hwrap, hwrap, hwrap, hwrap, wrap_residue hw, wrap_residue hw, ha.1, wrap_residue hw,
      wrap_eq_self hw ha.2, hb.1, wrap_residue hw, wrap_eq_self hw hb.2]
    exact truncated_readings hs hw ha.2 hb.2 hne

/-- Division and remainder both refuse zero, and it alone; in every other case they belong
together. -/
theorem div_and_mod (hw : 0 < f.width) (ha0 : 0 ≤ a) (ha : a < 2 ^ f.width) (hb0 : 0 ≤ b)
    (hb : b < 2 ^ f.width) :
    (b = 0 → f.div a b = .error (.divisionByZero "Division") ∧
      f.mod a b = .error (.divisionByZero "Modulo")) ∧
    (b ≠ 0 → ∃ q r, f.div a b = .ok q ∧ f.mod a b = .ok r ∧ f.Divided a b q r) := by
  have hreads {c : Int} (hc0 : 0 ≤ c) (hc : c < 2 ^ f.width) : f.Reads c (f.wrap c) := by
    rw [← modulus_eq] at hc
    exact reads_wrap hw (Word.residue_eq_self hc0 hc).symm
  constructor
  · rintro rfl
    exact ⟨rfl, rfl⟩
  · intro hne
    have hra := hreads ha0 ha
    have hrb := hreads hb0 hb
    have hy := mt (hrb.eq_zero_iff hw).mpr hne
    have hdiv := agree_div hw hra hrb
    have hmod := agree_mod hw hra hrb
    simp only [exactBinary, exactDivision, if_neg hy] at hdiv hmod
    exact ⟨_, _, eq_ok_of_agree hdiv, eq_ok_of_agree hmod, divided_of_reads hw hra hrb hy⟩

/-- At four bits, signed, 8 reads as the least word and 15 as `-1`. -/
theorem div_and_mod_least :
    (0 ≤ (8 : Int) ∧ (8 : Int) < 2 ^ 4 ∧ 0 ≤ (15 : Int) ∧ (15 : Int) < 2 ^ 4) ∧
    div ⟨4, true⟩ 8 15 = .ok 8 ∧ mod ⟨4, true⟩ 8 15 = .ok 0 ∧ Divided ⟨4, true⟩ 8 15 8 0 := by
  have hwords : 0 ≤ (8 : Int) ∧ (8 : Int) < 2 ^ 4 ∧ 0 ≤ (15 : Int) ∧ (15 : Int) < 2 ^ 4 := by decide
  obtain ⟨ha0, ha, hb0, hb⟩ := hwords
  obtain ⟨q, r, hq, hr, hdivided⟩ :=
    (div_and_mod (f := ⟨4, true⟩) (by decide) ha0 ha hb0 hb).2 (by decide)
  have hdiv : div ⟨4, true⟩ 8 15 = .ok 8 := rfl
  have hmod : mod ⟨4, true⟩ 8 15 = .ok 0 := rfl
  cases hdiv.symm.trans hq
  cases hmod.symm.trans hr
  exact ⟨⟨ha0, ha, hb0, hb⟩, hdiv, hmod, hdivided⟩

end Reckon.Word.Format
