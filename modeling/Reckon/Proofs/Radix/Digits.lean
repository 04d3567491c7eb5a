import Reckon.Radix
import Reckon.Word
import Mathlib.Tactic.Ring

/-!
# Digits and their value

The digits of a number, and the bits of a word, have the number as their value. Both are proved from
the most significant digit on, where the reader is at some number already. Groups are a layout: with
the separators taken away, the digits are left in their order.
-/

namespace Reckon

namespace Radix

variable {r : Radix}

/-- The number that digits denote after those of another one. -/
def readOn (r : Radix) (n : Nat) (cs : List Char) : Option Nat :=
  cs.foldlM (fun n c => (r.digit? c).map (r.base * n + ·)) n

theorem value?_eq_readOn (cs : List Char) : r.value? cs = r.readOn 0 cs := rfl

theorem readOn_cons (n : Nat) (c : Char) (cs : List Char) :
    r.readOn n (c :: cs) = (r.digit? c).bind fun d => r.readOn (r.base * n + d) cs := by
  rw [readOn, List.foldlM_cons]
  cases r.digit? c <;> rfl

theorem readOn_append (n : Nat) (cs ds : List Char) :
    r.readOn n (cs ++ ds) = (r.readOn n cs).bind fun m => r.readOn m ds := by
  rw [readOn, List.foldlM_append]
  rfl

theorem isDigit_of_readOn {n m : Nat} {cs : List Char} (h : r.readOn n cs = some m) :
    ∀ c ∈ cs, r.isDigit c = true := by
  induction cs generalizing n with
  | nil =>
      intro c hc
      cases hc
  | cons d cs ih =>
      rw [readOn_cons, Option.bind_eq_some_iff] at h
      obtain ⟨v, hv, h⟩ := h
      refine List.forall_mem_cons.mpr ⟨?_, ih h⟩
      rw [isDigit, hv]
      rfl

/-- Only digits have a value. -/
theorem isDigit_of_value? {n : Nat} {cs : List Char} (h : r.value? cs = some n) :
    ∀ c ∈ cs, r.isDigit c = true :=
  isDigit_of_readOn h

theorem base_pos (r : Radix) : 1 < r.base := by
  cases r <;> decide

/-- The digits of a number denote it, in whichever letters they are written. -/
theorem value?_toDigits {f : Char → Char}
    (hf : ∀ d < r.base, r.digit? (f d.digitChar) = some d) (n : Nat) :
    r.value? ((Nat.toDigits r.base n).map f) = some n := by
  induction n using Nat.strongRecOn with
  | ind n ih =>
      rw [value?_eq_readOn, Nat.toDigits_eq_if r.base_pos]
      split
      · next hlt =>
          rw [List.map_singleton, readOn_cons, hf n hlt, Nat.mul_zero]
          exact congrArg some (Nat.zero_add n)
      · next hle =>
          have hpos : 0 < n := by
            have := r.base_pos
            omega
          have hlast := hf (n % r.base) (Nat.mod_lt n (Nat.lt_trans Nat.one_pos r.base_pos))
          rw [List.map_append, readOn_append, ← value?_eq_readOn,
            ih (n / r.base) (Nat.div_lt_self hpos r.base_pos), Option.bind_some,
            List.map_singleton, readOn_cons, hlast]
          exact congrArg some (Nat.div_add_mod n r.base)

theorem value?_digits (r : Radix) (n : Nat) : r.value? (r.digits n) = some n :=
  value?_toDigits (by cases r <;> decide) n

theorem digits_ne_nil (r : Radix) (n : Nat) : r.digits n ≠ [] := by
  simp [digits]

/-- Decimal digits are the same in both cases of letters. -/
theorem value?_repr (n : Nat) : Radix.dec.value? n.repr.toList = some n := by
  rw [Nat.toList_repr, ← List.map_id (Nat.toDigits 10 n)]
  exact value?_toDigits (f := id) (by decide) n

end Radix

namespace Word

theorem bits_succ (width n : Nat) :
    bits (width + 1) n = (if n.testBit width then '1' else '0') :: bits width n := by
  rw [bits, List.range_succ, List.reverse_append]
  rfl

theorem readOn_bits (k width n : Nat) :
    Radix.bin.readOn k (bits width n) = some (k * 2 ^ width + n % 2 ^ width) := by
  induction width generalizing k with
  | zero => simp [bits, Radix.readOn, Nat.mod_one]
  | succ width ih =>
      have hdigit : Radix.bin.digit? (if n.testBit width then '1' else '0') =
          some (n.testBit width).toNat := by
        cases n.testBit width <;> decide
      rw [bits_succ, Radix.readOn_cons, hdigit, Option.bind_some, ih, Nat.mod_pow_succ,
        ← Nat.toNat_testBit]
      show some ((2 * k + _) * 2 ^ width + _) = _
      congr 1
      ring

/-- The bits of a word denote the class of the number. -/
theorem value?_bits (width n : Nat) : Radix.bin.value? (bits width n) = some (n % 2 ^ width) := by
  rw [Radix.value?_eq_readOn, readOn_bits, Nat.zero_mul, Nat.zero_add]

theorem length_bits (width n : Nat) : (bits width n).length = width := by
  simp [bits]

end Word

namespace Text

theorem toList_joinGroups (separator : String) (groups : List (List Char)) :
    (joinGroups separator groups).toList = separator.toList.intercalate groups := by
  rw [joinGroups, String.toList_intercalate, List.map_map]
  simp [Function.comp_def]

theorem mem_of_mem_intercalate {α : Type} {separator : List α} {groups : List (List α)} {c : α}
    (h : c ∈ separator.intercalate groups) : c ∈ separator ∨ c ∈ groups.flatten := by
  induction groups with
  | nil => exact absurd h (by simp)
  | cons g groups ih =>
      by_cases hnil : groups = []
      · subst hnil
        rw [List.intercalate_singleton] at h
        exact .inr (by simpa using h)
      · rw [List.intercalate_cons_of_ne_nil hnil] at h
        simp only [List.mem_append, List.flatten_cons] at h ⊢
        rcases h with (h | h) | h
        · exact .inr (.inl h)
        · exact .inl h
        · exact (ih h).imp_right .inr

/-- What keeps nothing of the separator keeps the groups in a row. -/
theorem filter_intercalate {α : Type} {p : α → Bool} {separator : List α}
    (hp : separator.filter p = []) (groups : List (List α)) :
    (separator.intercalate groups).filter p = groups.flatten.filter p := by
  induction groups with
  | nil => rfl
  | cons g groups ih =>
      by_cases hnil : groups = []
      · simp [hnil]
      · rw [List.intercalate_cons_of_ne_nil hnil, List.filter_append, List.filter_append, hp, ih,
          List.append_nil, List.flatten_cons, List.filter_append]

end Text

end Reckon
