import Reckon.Text.LowerCase

/-!
# Small letters in ASCII

Outside of names nothing but ASCII is ever read, and there the small letters of Unicode are what
the standard library has. `plain` is how texts are compared when neither capitals nor underscores
count.
-/

namespace Reckon.Text

/-- What holds of the first code points holds of every character of ASCII. -/
theorem of_ascii {P : Char → Prop} (h : ∀ n < 0x80, P (Char.ofNat n)) {c : Char}
    (hc : c.toNat < 0x80) : P c := by
  have hp := h c.toNat hc
  rwa [Char.ofNat_toNat] at hp

/-- Beyond ASCII nothing is made small. -/
theorem toLower_of_le {c : Char} (h : 0x80 ≤ c.toNat) : c.toLower = c := by
  delta Char.toLower
  rw [dif_neg]
  rintro ⟨-, hle⟩
  have hle : c.toNat ≤ 0x5A := hle
  omega

theorem toNat_toLower_lt {c : Char} : c.toLower.toNat < 0x80 ↔ c.toNat < 0x80 := by
  constructor
  · intro h
    refine Nat.lt_of_not_le fun hle => ?_
    rw [toLower_of_le hle] at h
    exact absurd h (Nat.not_lt.mpr hle)
  · exact of_ascii (P := fun c => c.toLower.toNat < 0x80) (by decide +kernel)

theorem toLower_toLower (c : Char) : c.toLower.toLower = c.toLower := by
  by_cases h : c.toNat < 0x80
  · exact of_ascii (P := fun c => c.toLower.toLower = c.toLower) (by decide +kernel) h
  · rw [toLower_of_le (c := c) (by omega), toLower_of_le (by omega)]

/-- Letters that are made small once are small. -/
theorem toLower_comp_toLower : Char.toLower ∘ Char.toLower = Char.toLower :=
  funext toLower_toLower

theorem toLower_eq_iff {c d : Char} (hd : d.isAlpha = false) : c.toLower = d ↔ c = d := by
  by_cases h : c.toNat < 0x80
  · have hletter : c.toLower = c ∨ (c.isAlpha = true ∧ c.toLower.isAlpha = true) :=
      of_ascii (P := fun c => c.toLower = c ∨ (c.isAlpha = true ∧ c.toLower.isAlpha = true))
        (by decide +kernel) h
    rcases hletter with hc | ⟨hc, hlower⟩
    · rw [hc]
    · constructor
      · rintro rfl
        rw [hlower] at hd
        cases hd
      · rintro rfl
        rw [hc] at hd
        cases hd
  · rw [toLower_of_le (by omega)]

theorem bne_underscore_comp_toLower :
    (fun c : Char => c != '_') ∘ Char.toLower = fun c => c != '_' := by
  funext c
  rw [Bool.eq_iff_iff]
  simp [toLower_eq_iff (d := '_') (by decide)]

theorem lowerCase_of_ascii {cs : List Char} (h : ∀ c ∈ cs, c.toNat < 0x80) :
    lowerCase cs = cs.map Char.toLower := by
  have hafter (before : List Char) : lowerAfter before cs = cs.map Char.toLower := by
    induction cs generalizing before with
    | nil => rfl
    | cons c cs ih =>
        obtain ⟨hlower, hsigma⟩ : lowerChar c = [c.toLower] ∧ c ≠ 'Σ' :=
          of_ascii (P := fun c => lowerChar c = [c.toLower] ∧ c ≠ 'Σ') (by decide +kernel)
            (h c (by simp))
        rw [lowerAfter, ih (fun d hd => h d (by simp [hd])), hlower]
        simp [hsigma]
  exact hafter []

/-- The characters in small letters, without the underscores. -/
def plain (cs : List Char) : List Char :=
  (cs.map Char.toLower).filter (· != '_')

theorem plain_append (cs ds : List Char) : plain (cs ++ ds) = plain cs ++ plain ds := by
  rw [plain, List.map_append, List.filter_append]
  rfl

theorem plain_eq_map_filter (cs : List Char) :
    plain cs = (cs.filter (· != '_')).map Char.toLower := by
  rw [plain, List.filter_map, bne_underscore_comp_toLower]

theorem plain_filter (cs : List Char) : plain (cs.filter (· != '_')) = plain cs := by
  rw [plain_eq_map_filter, List.filter_filter, plain_eq_map_filter]
  simp

theorem plain_map_toLower (cs : List Char) : plain (cs.map Char.toLower) = plain cs := by
  rw [plain, List.map_map, toLower_comp_toLower]
  rfl

end Reckon.Text
