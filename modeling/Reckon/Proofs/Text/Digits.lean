import Mathlib.Data.Nat.Digits.Defs
import Reckon.Text.LowerCase
import Reckon.Text.Written

/-!
# Texts of digits

An option text is put into small letters and then asked whether it consists of digits. The first
step does nothing to the second: neither capitals nor their small letters are digits, so a text is
one of digits before it exactly if it is after it (`isDigits_lowerCase`), and then it is left as it
is (`lowerCase_of_isDigits`).

What the answer is good for is another matter. Ornamental digits count as digits here and have no
value as such. Digits are worth what their places say if all of them are decimal
(`decimalValue?_eq_decimalPlaces`), and nothing if one of them is not (`decimalValue?_eq_none`).
-/

namespace Reckon.Text

/-- Whether a text is one of digits, decimal or ornamental. -/
def isDigits (cs : List Char) : Bool :=
  !cs.isEmpty && cs.all isDigitLike

/-! ## Capitals and digits

There are too many characters to look at each of them. But capitals stand in runs, their small
letters then do as well, and digits stand in ranges. That no run meets a range is checked once for
each pair of them (`capitals_apart`, `smalls_apart`), and holds of all characters in between. -/

/-- Where digits are found: ten from each zero on, and the ornamental ones. -/
def digitRanges : List CodeRange :=
  digitZeros.map (fun z => ⟨z, z + 9⟩) ++ ornamentalDigitRanges

theorem exists_digitRange {c : Char} (h : isDigitLike c = true) :
    ∃ q ∈ digitRanges, q.first ≤ c.toNat ∧ c.toNat ≤ q.last := by
  rw [isDigitLike, Bool.or_eq_true] at h
  rcases h with hdecimal | hornamental
  · obtain ⟨d, hd⟩ := Option.isSome_iff_exists.mp hdecimal
    obtain ⟨z, hz, -⟩ := Option.map_eq_some_iff.mp hd
    have hbounds := List.find?_some hz
    simp only [Bool.and_eq_true, decide_eq_true_eq] at hbounds
    have hmem : (⟨z, z + 9⟩ : CodeRange) ∈ digitRanges :=
      List.mem_append_left _ (List.mem_map_of_mem (List.mem_of_find?_eq_some hz))
    exact ⟨⟨z, z + 9⟩, hmem, hbounds.1, Nat.le_of_lt_succ hbounds.2⟩
  · obtain ⟨q, hq, hcovers⟩ := List.any_eq_true.mp hornamental
    simp only [CodeRange.covers, Bool.and_eq_true, decide_eq_true_eq] at hcovers
    exact ⟨q, List.mem_append_right _ hq, hcovers⟩

/-- Whether one range ends before the other begins. -/
def CodeRange.isApart (r q : CodeRange) : Bool :=
  r.last.blt q.first || q.last.blt r.first

theorem isDigitLike_of_isApart {r : CodeRange} (h : digitRanges.all r.isApart = true) {c : Char}
    (hfirst : r.first ≤ c.toNat) (hlast : c.toNat ≤ r.last) : isDigitLike c = false := by
  rw [Bool.eq_false_iff]
  intro hdigit
  obtain ⟨q, hq, hle⟩ := exists_digitRange hdigit
  have hapart := List.all_eq_true.mp h q hq
  simp only [CodeRange.isApart, Bool.or_eq_true, Nat.blt_eq] at hapart
  omega

namespace CapitalRun

/-- Where the capitals of a run stand. -/
def capitals (r : CapitalRun) : CodeRange :=
  ⟨r.first, r.last⟩

/-- Where their small letters stand. -/
def smalls (r : CapitalRun) : CodeRange :=
  ⟨((r.first : Int) + r.shift).toNat, ((r.last : Int) + r.shift).toNat⟩

/-- No run of capitals meets a range of digits, and neither do their small letters. -/
theorem capitals_apart : (capitalRuns.all fun r => digitRanges.all r.capitals.isApart) = true := by
  decide +kernel

theorem smalls_apart : (capitalRuns.all fun r => digitRanges.all r.smalls.isApart) = true := by
  decide +kernel

variable {r : CapitalRun} {c : Char}

theorem bounds_of_holds (hc : r.holds c = true) : r.first ≤ c.toNat ∧ c.toNat ≤ r.last := by
  simp only [holds, Bool.and_eq_true, decide_eq_true_eq] at hc
  exact hc.1

theorem isDigitLike_capital (hr : r ∈ capitalRuns) (hc : r.holds c = true) :
    isDigitLike c = false := by
  obtain ⟨hfirst, hlast⟩ := bounds_of_holds hc
  exact isDigitLike_of_isApart (List.all_eq_true.mp capitals_apart r hr) hfirst hlast

theorem isDigitLike_small (hr : r ∈ capitalRuns) (hc : r.holds c = true) :
    isDigitLike (Char.ofNat ((c.toNat : Int) + r.shift).toNat) = false := by
  obtain ⟨hfirst, hlast⟩ := bounds_of_holds hc
  delta Char.ofNat
  by_cases hvalid : ((c.toNat : Int) + r.shift).toNat.isValidChar
  · rw [dif_pos hvalid]
    refine isDigitLike_of_isApart (List.all_eq_true.mp smalls_apart r hr) ?_ ?_
    · show ((r.first : Int) + r.shift).toNat ≤ ((c.toNat : Int) + r.shift).toNat
      omega
    · show ((c.toNat : Int) + r.shift).toNat ≤ ((r.last : Int) + r.shift).toNat
      omega
  -- A number that is no code point stands for U+0000, which is no digit either.
  · rw [dif_neg hvalid]
    decide

end CapitalRun

theorem lowerChar_of_isDigitLike {c : Char} (h : isDigitLike c = true) : lowerChar c = [c] := by
  unfold lowerChar
  split
  · next hdot =>
      rw [eq_of_beq hdot] at h
      exact absurd h (by decide)
  · split
    · next r hr =>
        have hholds := List.find?_some hr
        rw [CapitalRun.isDigitLike_capital (List.mem_of_find?_eq_some hr) hholds] at h
        cases h
    · rfl

theorem all_lowerChar (c : Char) : (lowerChar c).all isDigitLike = isDigitLike c := by
  unfold lowerChar
  split
  · next hdot =>
      rw [eq_of_beq hdot]
      decide
  · split
    · next r hr =>
        have hrun := List.mem_of_find?_eq_some hr
        have hholds := List.find?_some hr
        simp [CapitalRun.isDigitLike_capital hrun hholds, CapitalRun.isDigitLike_small hrun hholds]
    · simp

theorem lowerChar_ne_nil (c : Char) : lowerChar c ≠ [] := by
  unfold lowerChar
  split
  · simp
  · split <;> simp

/-- What the small form of a character has in common with it, wherever it stands. The small form of
sigma depends on its place, but neither of its two forms is a digit. -/
theorem lowerAfter_cons (before : List Char) (c : Char) (cs : List Char) :
    ∃ lowered, lowerAfter before (c :: cs) = lowered ++ lowerAfter (c :: before) cs ∧
      lowered ≠ [] ∧ lowered.all isDigitLike = isDigitLike c ∧
      (isDigitLike c = true → lowered = [c]) := by
  rw [lowerAfter]
  split
  · next hsigma =>
      have hc : c = 'Σ' := by
        simp only [Bool.and_eq_true, beq_iff_eq] at hsigma
        exact hsigma.1.1
      rw [hc]
      exact ⟨['ς'], rfl, by simp, by decide, fun h => absurd h (by decide)⟩
  · exact ⟨lowerChar c, rfl, lowerChar_ne_nil c, all_lowerChar c, lowerChar_of_isDigitLike⟩

theorem all_lowerAfter (before cs : List Char) :
    (lowerAfter before cs).all isDigitLike = cs.all isDigitLike := by
  induction cs generalizing before with
  | nil => rfl
  | cons c cs ih =>
      obtain ⟨lowered, heq, -, hall, -⟩ := lowerAfter_cons before c cs
      rw [heq, List.all_append, hall, ih, List.all_cons]

theorem isDigits_lowerCase (cs : List Char) : isDigits (lowerCase cs) = isDigits cs := by
  cases cs with
  | nil => rfl
  | cons c cs =>
      obtain ⟨lowered, heq, hne, -, -⟩ := lowerAfter_cons [] c cs
      have hempty : (lowerCase (c :: cs)).isEmpty = false := by
        rw [lowerCase, heq]
        simp [hne]
      rw [isDigits, hempty, lowerCase, all_lowerAfter]
      rfl

theorem lowerAfter_of_all {cs : List Char} (h : cs.all isDigitLike = true) (before : List Char) :
    lowerAfter before cs = cs := by
  induction cs generalizing before with
  | nil => rfl
  | cons c cs ih =>
      rw [List.all_cons, Bool.and_eq_true] at h
      obtain ⟨lowered, heq, -, -, hsame⟩ := lowerAfter_cons before c cs
      rw [heq, hsame h.1, ih h.2]
      rfl

/-- A text of digits is in small letters. -/
theorem lowerCase_of_isDigits {cs : List Char} (h : isDigits cs = true) : lowerCase cs = cs := by
  rw [isDigits, Bool.and_eq_true] at h
  exact lowerAfter_of_all h.2 []

section

variable {digit? : Char → Option Nat} {cs : List Char}

/-- Digits that are read on from a number are worth what their places say, and so is the number. -/
theorem foldlM_eq_ofDigits (b : Nat) {value : Char → Nat}
    (h : ∀ c ∈ cs, digit? c = some (value c)) (n : Nat) :
    cs.foldlM (fun n c => (digit? c).map (b * n + ·)) n =
      some (Nat.ofDigits b (cs.map value).reverse + b ^ cs.length * n) := by
  induction cs generalizing n with
  | nil => simp
  | cons c cs ih =>
      obtain ⟨hc, hcs⟩ := List.forall_mem_cons.mp h
      rw [List.foldlM_cons, hc, Option.map_some, Option.bind_eq_bind, Option.bind_some, ih hcs,
        List.map_cons, List.reverse_cons, Nat.ofDigits_append, Nat.ofDigits_singleton,
        List.length_reverse, List.length_map, List.length_cons]
      congr 1
      ring

theorem foldlM_eq_none (b : Nat) (h : ∃ c ∈ cs, digit? c = none) (n : Nat) :
    cs.foldlM (fun n c => (digit? c).map (b * n + ·)) n = none := by
  induction cs generalizing n with
  | nil => simp at h
  | cons c cs ih =>
      rw [List.foldlM_cons]
      cases hd : digit? c with
      | none => rfl
      | some d =>
          refine ih ?_ (b * n + d)
          obtain ⟨e, he, hnone⟩ := h
          rcases List.mem_cons.mp he with heq | he
          · rw [heq, hd] at hnone
            cases hnone
          · exact ⟨e, he, hnone⟩

end

/-- What digits of any script are worth by their places, the first the most significant. -/
def decimalPlaces (cs : List Char) : Nat :=
  Nat.ofDigits 10 (cs.map fun c => (decimalDigit? c).getD 0).reverse

/-- Decimal digits are worth what their places say. -/
theorem decimalValue?_eq_decimalPlaces {cs : List Char} (h : ∀ c ∈ cs, isDecimalDigit c = true) :
    decimalValue? cs = some (decimalPlaces cs) := by
  have hvalue : ∀ c ∈ cs, decimalDigit? c = some ((decimalDigit? c).getD 0) := by
    intro c hc
    obtain ⟨d, hd⟩ := Option.isSome_iff_exists.mp (h c hc)
    rw [hd, Option.getD_some]
  rw [decimalValue?, foldlM_eq_ofDigits 10 hvalue, Nat.mul_zero, Nat.add_zero]
  rfl

/-- With a character among them that is no decimal digit, they are worth nothing. -/
theorem decimalValue?_eq_none {cs : List Char} (h : ∃ c ∈ cs, isDecimalDigit c = false) :
    decimalValue? cs = none := by
  obtain ⟨c, hc, hnot⟩ := h
  exact foldlM_eq_none 10 ⟨c, hc, by simpa [isDecimalDigit] using hnot⟩ 0

end Reckon.Text
