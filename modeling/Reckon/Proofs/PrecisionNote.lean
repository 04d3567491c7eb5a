import Reckon.Calculator
import Reckon.Proofs.Binary64.Integers
import Reckon.Proofs.Literal

/-!
# The remark on integers beyond the safe range

Only a numeral makes a remark, and a machine hands the latest one on: an instruction without a
remark leaves the one that stands. So a result has a remark exactly if some numeral of the program
made one, however far back (`note_of_run`). Numbers are read with a remark exactly if they denote an
integer above `2 ^ 53 - 1` that was not written as a plain decimal, and up to there an integer is
a number of the format. Hence a result without a remark rests on no integer that was rounded.
-/

namespace Reckon

namespace Machine

variable {α : Type} {A : Arithmetic α} {s s' : State α} {i : Instruction} {p : Program}

/-- The remark that an instruction makes. -/
def remark? (A : Arithmetic α) : Instruction → Option String
  | .number n => (A.number n).toOption.bind Prod.snd
  | _ => none

theorem remark?_eq_some_iff {remark : String} : remark? A i = some remark ↔
    ∃ n a, i = .number n ∧ A.number n = .ok (a, some remark) := by
  constructor
  · intro h
    cases i with
    | constant _ | call _ _ | operator _ | stray _ => cases h
    | number n =>
        obtain ⟨⟨a, _⟩, hnumber, rfl⟩ := Option.bind_eq_some_iff.mp h
        exact ⟨n, a, rfl, eq_ok_of_toOption hnumber⟩
  · rintro ⟨n, a, rfl, hnumber⟩
    rw [remark?, hnumber]
    rfl

theorem Stepped.note_eq (h : Stepped A s i s') : s'.note = (remark? A i).or s.note := by
  cases h with
  | number hn => simp [remark?, hn, Except.toOption]
  | constant _ | call _ _ _ | unary _ _ | binary _ _ => rfl

/-- Of the remarks made in a run the last one is kept. -/
theorem note_of_run (h : run A s p = .ok s') :
    s'.note = (p.filterMap (remark? A)).getLast?.or s.note := by
  induction p generalizing s with
  | nil =>
      cases h
      rfl
  | cons i p ih =>
      rw [run_cons] at h
      obtain ⟨mid, hstep, hrun⟩ := bind_eq_ok h
      rw [ih hrun, (stepped_of_step hstep).note_eq]
      cases hi : remark? A i with
      | none => simp [hi]
      | some remark =>
          cases hp : (p.filterMap (remark? A)).getLast? <;> simp [hi, hp, List.getLast?_cons]

/-- A program with a value leaves this value alone, and the remark. -/
theorem run_of_evaluate {a : α} {note : Option String} (h : evaluate A p = .ok (a, note)) :
    run A {} p = .ok ⟨[a], note⟩ := by
  obtain ⟨⟨stack, note'⟩, hrun, hresult⟩ := bind_eq_ok h
  match stack with
  | [b] =>
      cases hresult
      exact hrun
  | [] | _ :: _ :: _ => cases hresult

end Machine

namespace Numeral

variable {n : Numeral}

/-- Whether the numeral is integral and has a mark or a radix other than ten. -/
def ReadAsInteger (n : Numeral) : Prop :=
  n.fractional = false ∧ (n.marked = true ∨ n.radix ≠ .dec)

/-- What the digits are worth by their places. -/
def exactValue (n : Numeral) : Nat :=
  n.radix.positional n.text.toList

theorem integer_eq_exactValue {k : Nat} (h : n.integer = .ok k) : k = n.exactValue := by
  unfold integer at h
  split at h
  · cases h
  · next value hvalue =>
      have hdigits : ∀ c ∈ n.text.toList, Radix.ordinal c < n.radix.base := fun c hc =>
        (Radix.isDigit_iff_ordinal c).mp (Radix.isDigit_of_value? hvalue c hc)
      rw [Radix.value?_eq_positional hdigits] at hvalue
      cases hvalue
      split at h
      · cases h
      · cases h
        rfl

theorem readAsDecimal_eq_false_iff : Arithmetic.readAsDecimal n = false ↔ n.ReadAsInteger := by
  simp [Arithmetic.readAsDecimal, ReadAsInteger, imp_iff_not_or, or_comm]

end Numeral

namespace Arithmetic

variable {n : Numeral} {a : Binary64} {remark : Option String}

/-- A numeral that is read as an integer is rounded, and has a remark if it is not safe. -/
theorem floatNumber_of_readAsInteger (hn : n.ReadAsInteger) (h : floatNumber n = .ok (a, remark)) :
    a = .ofInt n.exactValue ∧ a.isFinite = true ∧
      remark = if 2 ^ 53 - 1 < n.exactValue then some inexactNote else none := by
  rw [floatNumber, Numeral.readAsDecimal_eq_false_iff.mpr hn, if_neg Bool.false_ne_true] at h
  obtain ⟨exact, hexact, h⟩ := bind_eq_ok h
  obtain rfl := Numeral.integer_eq_exactValue hexact
  split at h
  · next x hx =>
      cases h
      exact ⟨hx.symm, rfl, rfl⟩
  · cases h

/-- No other numeral has one. -/
theorem floatNumber_of_not_readAsInteger (hn : ¬ n.ReadAsInteger)
    (h : floatNumber n = .ok (a, remark)) :
    remark = none := by
  have hdecimal : readAsDecimal n = true := by
    rwa [← Numeral.readAsDecimal_eq_false_iff, Bool.not_eq_false] at hn
  rw [floatNumber, if_pos hdecimal] at h
  split at h
  · obtain ⟨b, -, h⟩ := bind_eq_ok h
    cases h
    rfl
  · cases h

end Arithmetic

/-! ## Results with and without the remark

A remark that was made early may be replaced, so what becomes of a single remark is not followed
through the run. Both directions go through the list of all remarks, of which the result has the
last: one that was made is in the list, and all of them say the same (`numeral_of_remark`). -/

namespace Machine

variable {s : State Binary64} {p q r : Program} {n : Numeral}

/-- The remark says one thing only, and only numerals that are read as unsafe integers make it. -/
theorem numeral_of_remark {remark : String}
    (h : remark ∈ p.filterMap (remark? Arithmetic.floats)) :
    remark = inexactNote ∧
      ∃ n, .number n ∈ p ∧ n.ReadAsInteger ∧ 2 ^ 53 - 1 < n.exactValue := by
  obtain ⟨i, hi, hremark⟩ := List.mem_filterMap.mp h
  obtain ⟨n, a, rfl, hnumber⟩ := remark?_eq_some_iff.mp hremark
  by_cases hn : n.ReadAsInteger
  · obtain ⟨-, -, hremark⟩ := Arithmetic.floatNumber_of_readAsInteger hn hnumber
    split at hremark
    · next hlt =>
        cases hremark
        exact ⟨rfl, n, hi, hn, hlt⟩
    · cases hremark
  · cases Arithmetic.floatNumber_of_not_readAsInteger hn hnumber

/-- In a run that succeeds each of these numerals makes it. -/
theorem remark_of_numeral (hrun : run Arithmetic.floats {} p = .ok s) (hmem : .number n ∈ p)
    (hn : n.ReadAsInteger) (hlt : 2 ^ 53 - 1 < n.exactValue) :
    inexactNote ∈ p.filterMap (remark? Arithmetic.floats) := by
  obtain ⟨t, t', hstep⟩ := stepped_of_mem hmem hrun
  cases hstep with
  | number hnumber =>
      obtain ⟨-, -, rfl⟩ := Arithmetic.floatNumber_of_readAsInteger hn hnumber
      rw [if_pos hlt] at hnumber
      exact List.mem_filterMap.mpr ⟨_, hmem, remark?_eq_some_iff.mpr ⟨n, _, rfl, hnumber⟩⟩

/-- Where no remark is left at the end, there was none before, and a numeral that is read as an
integer was pushed without loss. -/
theorem pushed_of_note_eq_none (hrun : run Arithmetic.floats {} (q ++ .number n :: r) = .ok s)
    (hnote : s.note = none) (hn : n.ReadAsInteger) :
    ∃ stack y, run Arithmetic.floats {} q = .ok ⟨stack, none⟩ ∧
      run Arithmetic.floats {} (q ++ [.number n]) = .ok ⟨.finite y :: stack, none⟩ ∧
      y.toRat = n.exactValue := by
  rw [run_append] at hrun
  obtain ⟨⟨stack, note⟩, hq, hrun⟩ := bind_eq_ok hrun
  rw [run_cons] at hrun
  obtain ⟨mid, hstep, hr⟩ := bind_eq_ok hrun
  obtain ⟨-, hmid⟩ := Option.or_eq_none_iff.mp ((note_of_run hr).symm.trans hnote)
  have hone : run Arithmetic.floats {} (q ++ [.number n]) = .ok mid := by
    rw [run_append, hq]
    show (step _ _ _ >>= _) = _
    rw [hstep]
    rfl
  have hstepped := stepped_of_step hstep
  obtain ⟨hremark, rfl⟩ : remark? _ _ = none ∧ note = none :=
    Option.or_eq_none_iff.mp (hstepped.note_eq.symm.trans hmid)
  cases hstepped with
  | @number _ a remark _ _ hnumber =>
      obtain ⟨rfl, -, hif⟩ := Arithmetic.floatNumber_of_readAsInteger hn hnumber
      have hnone : remark = none := by simpa [remark?, hnumber, Except.toOption] using hremark
      have hle : n.exactValue ≤ 2 ^ 53 - 1 := by
        by_contra hlt
        rw [hnone, if_pos (by omega)] at hif
        cases hif
      obtain ⟨y, hy, hvalue⟩ :=
        Binary64.eq_finite_of_toRat? (Binary64.isInteger_ofInt (n := n.exactValue) hle)
      refine ⟨stack, y, hq, ?_, ?_⟩
      · rw [hone, hnone, hy]
        rfl
      · rw [hvalue, Int.cast_natCast]

end Machine

/-- Only the arithmetic of numbers has such results. -/
theorem Program.evaluate_eq_float {o : Options} {p : Program} {x : Binary64}
    {note : Option String} (h : p.evaluate o = .ok (.float x note)) :
    Machine.evaluate Arithmetic.floats p = .ok (x, note) := by
  cases ho : o.mode with
  | float =>
      rw [evaluate_float ho] at h
      obtain ⟨_, hvalue, heq⟩ := map_eq_ok h
      cases heq
      exact hvalue
  | integer =>
      rw [evaluate_integer ho] at h
      obtain ⟨_, -, heq⟩ := map_eq_ok h
      cases heq

/-- A result has the remark exactly if the program has a numeral that is integral, has a mark or a
radix other than ten, and denotes an integer above `2 ^ 53 - 1`, and otherwise it has none. In a run
to a result without the remark every numeral that is integral and has a mark or a radix other than
ten is put on the stack as the number that it denotes. -/
theorem precision_noted_iff {o : Options} {p : Program} {x : Binary64} {note : Option String}
    (h : p.evaluate o = .ok (.float x note)) :
    (note = some inexactNote ↔
      ∃ n, .number n ∈ p ∧ n.ReadAsInteger ∧ 2 ^ 53 - 1 < n.exactValue) ∧
    (note = none ∨ note = some inexactNote) ∧
    (note = none → ∀ (q r : Program) (n : Numeral), p = q ++ .number n :: r → n.ReadAsInteger →
      ∃ stack y, Machine.run Arithmetic.floats {} q = .ok ⟨stack, none⟩ ∧
        Machine.run Arithmetic.floats {} (q ++ [.number n]) = .ok ⟨.finite y :: stack, none⟩ ∧
        y.toRat = n.exactValue) := by
  have hrun := Machine.run_of_evaluate (Program.evaluate_eq_float h)
  have hnote : note = (p.filterMap (Machine.remark? Arithmetic.floats)).getLast? := by
    simpa using Machine.note_of_run hrun
  set remarks := p.filterMap (Machine.remark? Arithmetic.floats) with hremarks
  have hcases : (note = none ∧ remarks = []) ∨
      (note = some inexactNote ∧ inexactNote ∈ remarks) := by
    cases hlast : remarks.getLast? with
    | none => exact .inl ⟨hnote.trans hlast, List.getLast?_eq_none_iff.mp hlast⟩
    | some remark =>
        have hmem := List.mem_of_getLast? hlast
        obtain ⟨rfl, -⟩ := Machine.numeral_of_remark hmem
        exact .inr ⟨hnote.trans hlast, hmem⟩
  refine ⟨⟨fun hsome => ?_, ?_⟩, hcases.imp And.left And.left, fun hnone q r n hp hn => ?_⟩
  · rcases hcases with ⟨hnone, -⟩ | ⟨-, hmem⟩
    · cases hnone.symm.trans hsome
    · exact (Machine.numeral_of_remark hmem).2
  · rintro ⟨n, hmem, hn, hlt⟩
    rcases hcases with ⟨-, hnil⟩ | ⟨hsome, -⟩
    · have hremark := Machine.remark_of_numeral hrun hmem hn hlt
      rw [← hremarks, hnil] at hremark
      cases hremark
    · exact hsome
  · subst hp
    exact Machine.pushed_of_note_eq_none hrun hnone hn

/-- On both sides of the bound: `0x20000000000000 - 1` has the remark although its value is safe,
and `0x1FFFFFFFFFFFFF + 1` has none although its value is not. -/
theorem precision_noted_iff_bound :
    let beyond : Numeral := { text := "20000000000000", radix := .hex, marked := true }
    let last : Numeral := { text := "1FFFFFFFFFFFFF", radix := .hex, marked := true }
    let one : Instruction := .number { text := "1" }
    let p : Program := [.number beyond, one, .operator (.binary .sub)]
    let q : Program := [.number last, one, .operator (.binary .add)]
    Program.evaluate {} p = .ok (.float (.ofInt (2 ^ 53 - 1)) (some inexactNote)) ∧
      (∃ n, .number n ∈ p ∧ n.ReadAsInteger ∧ 2 ^ 53 - 1 < n.exactValue) ∧
      Program.evaluate {} q = .ok (.float (.ofInt (2 ^ 53)) none) ∧
      ∃ stack y, Machine.run Arithmetic.floats {} [] = .ok ⟨stack, none⟩ ∧
        Machine.run Arithmetic.floats {} [.number last] = .ok ⟨.finite y :: stack, none⟩ ∧
        y.toRat = last.exactValue := by
  intro beyond last one p q
  have hp : Program.evaluate {} p = .ok (.float (.ofInt (2 ^ 53 - 1)) (some inexactNote)) :=
    eq_ok_of_toOption (by decide +kernel)
  have hq : Program.evaluate {} q = .ok (.float (.ofInt (2 ^ 53)) none) :=
    eq_ok_of_toOption (by decide +kernel)
  exact ⟨hp, (precision_noted_iff hp).1.mp rfl, hq,
    (precision_noted_iff hq).2.2 rfl [] _ last rfl ⟨rfl, .inl rfl⟩⟩

end Reckon
