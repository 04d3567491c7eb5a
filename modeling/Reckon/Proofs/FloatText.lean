import Reckon.Proofs.Binary64.Layout
import Reckon.Proofs.Modes
import Reckon.Proofs.ReadBack

/-!
# Numbers read back

The text of a finite binary64 number can be typed in again. Whatever its shape, all digits of an
integer or the fewest that tell the number from others, with a point or an exponent, it is one
written decimal with at most a minus sign before it, and what the decimal denotes is rounded to the
number without its sign (`text_writes`). The other radixes show safe integers alone, and those are
read exactly.
-/

namespace Reckon

open Binary64 (Finite nearest)
open Binary64.Layout (Writes)
open Scan (Spells)

variable {o : Options} {text : String} {cs : List Char} {x : Finite}

namespace Binary64

theorem Finite.toRat_eq_num (h : x.isIntegral = true) : x.toRat = x.toRat.num :=
  ((Rat.den_eq_one_iff _).mp (beq_iff_eq.mp h)).symm

theorem Finite.digits_shortest (h : x.mantissa ≠ 0) : x.shortest.digits ≠ 0 := by
  intro hzero
  have hread := Finite.ofDecimal_shortest h
  rw [ofDecimal, if_pos hzero] at hread
  injection hread with hread
  exact h (congrArg Finite.mantissa hread).symm

theorem Finite.negative_iff (h : x.mantissa ≠ 0) : x.negative = true ↔ x.toRat < 0 := by
  have hpos := magnitude_pos h
  rw [toRat]
  split
  · next hs => simp [hs, hpos]
  · next hs => simp [hs, hpos.le]

/-- The text of a number is a written decimal that is rounded to the number, sign apart. -/
theorem text_writes (x : Finite) :
    ∃ cs r, (finite x).text.toList = (if x.toRat < 0 then '-' :: cs else cs) ∧
      Writes cs r ∧ (nearest r).toRat? = some |x.toRat| := by
  rw [← Finite.toRat_abs]
  unfold text
  dsimp only
  split
  · next hintegral =>
      rw [Bool.and_eq_true] at hintegral
      have hnum := Finite.toRat_eq_num hintegral.1
      have habs : (x.toRat.num.natAbs : Rat) = x.abs.toRat := by
        rw [Finite.toRat_abs, hnum, ← Int.cast_abs, Int.abs_eq_natAbs]
        simp
      refine ⟨_, _, ?_, Layout.writes_digits (by simp) (Radix.value?_repr x.toRat.num.natAbs), ?_⟩
      · rw [toList_toString_int]
        simp only [Rat.num_neg]
      · rw [habs]
        exact toRat?_nearest x.abs
  · next hother =>
      -- Zero is an integer, so the sign that is written is the sign of the value.
      have hmantissa : x.mantissa ≠ 0 := by
        intro hzero
        refine hother ?_
        rw [Finite.isIntegral, Finite.toRat_eq_zero.mpr hzero]
        decide
      refine ⟨_, _, ?_, Layout.ofDecimal_writes (Finite.digits_shortest hmantissa), ?_⟩
      · rw [Layout.ofFinite, if_neg hmantissa]
        simp only [← Finite.negative_iff hmantissa]
        split <;> simp
      · rw [← ofDecimal_eq_nearest, Finite.ofDecimal_shortest hmantissa]
        rfl

end Binary64

/-- The text evaluates to a number of the given value, without a remark. -/
def ReadsAsNumber (o : Options) (text : String) (r : Rat) : Prop :=
  ∃ v : Binary64, evaluate o text = .ok (.float v none) ∧ v.toRat? = some r

theorem readsAsNumber_of_floatNumber (ho : o.mode = .float) {n : Numeral} {a : Binary64} {r : Rat}
    (hnumber : Arithmetic.floatNumber n = .ok (a, none)) (ha : a.toRat? = some |r|)
    (hspells : ∀ due, Spells o.inputBase.radix due cs [.number n] false [])
    (htext : text.toList = if r < 0 then '-' :: cs else cs) : ReadsAsNumber o text r := by
  have hevaluate : (Expr.number n).evaluate Arithmetic.floats = .ok (a, none) := hnumber
  rw [ReadsAsNumber, evaluate_of_numeral hspells htext]
  split
  · next hneg =>
      refine ⟨a.neg, ?_, ?_⟩
      · rw [Expr.result, ho]
        dsimp only
        rw [Expr.evaluate, hevaluate]
        rfl
      · obtain ⟨x, rfl, hx⟩ := Binary64.eq_finite_of_toRat? ha
        exact congrArg some (by rw [Finite.toRat_neg, hx, abs_of_neg hneg, neg_neg])
  · next hpos =>
      refine ⟨a, ?_, ?_⟩
      · rw [Expr.result, ho]
        dsimp only
        rw [hevaluate]
        rfl
      · rw [ha, abs_of_nonneg (not_lt.mp hpos)]

theorem readsAsNumber_of_writes (ho : o.mode = .float) (hbase : o.inputBase.radix = .dec)
    {r s : Rat} (h : Writes cs s) (hs : (nearest s).toRat? = some |r|)
    (htext : text.toList = if r < 0 then '-' :: cs else cs) : ReadsAsNumber o text r := by
  have hread := Binary64.ofWritten?_of_writes h
  obtain ⟨y, hy, -⟩ := Binary64.eq_finite_of_toRat? hs
  obtain ⟨d, hd, rfl⟩ := h
  obtain ⟨n, hn, hdecimal, hspells⟩ := Spells.decimal hd
  refine readsAsNumber_of_floatNumber ho (a := nearest d.toRat) ?_ hs (hbase ▸ hspells) htext
  rw [Arithmetic.floatNumber, if_pos hdecimal, hn, String.toList_ofList, hread, hy]
  rfl

theorem readsAsNumber_of_spellsNumber (ho : o.mode = .float) {n : Int}
    (hn : n.natAbs ≤ Binary64.maxSafeInteger) (h : SpellsNumber o.inputBase.radix cs n.natAbs)
    (htext : text.toList = if n < 0 then '-' :: cs else cs) : ReadsAsNumber o text n := by
  obtain ⟨m, hfractional, hinteger, hspells⟩ := h
  obtain ⟨a, ha, hvalue⟩ := Arithmetic.floatNumber_of_integer hfractional hinteger hn
  refine readsAsNumber_of_floatNumber ho ha ?_ hspells ?_
  · rw [hvalue, ← Int.cast_abs, Int.abs_eq_natAbs]
  · simp only [Int.cast_lt_zero]
    exact htext

theorem View.mem_alternates_ofSafeInteger {value : String} {n : Int} {b : DisplayBase}
    {a : String × String} (h : a ∈ (ofSafeInteger value n b).alternates) :
    a = ("Dec", value) ∨ ∃ r ∈ otherRadixes, a = (r.label, r.write n) := by
  unfold ofSafeInteger at h
  split at h
  · rcases List.mem_cons.mp h with rfl | h
    · exact .inl rfl
    · exact .inr (mem_inRadixes h)
  · exact .inr (mem_inRadixes h)
  · rcases List.mem_cons.mp h with rfl | h
    · exact .inl rfl
    · obtain ⟨r, hr, ha⟩ := mem_inRadixes h
      exact .inr ⟨r, (List.mem_filter.mp hr).1, ha⟩

theorem View.ofFloat_of_isInteger {n : Int} (hx : (Binary64.finite x).IsInteger n)
    (hn : n.natAbs ≤ Binary64.maxSafeInteger) (note : Option String) (d : Display) :
    ofFloat (.finite x) note d =
      { ofSafeInteger (Binary64.finite x).text n d.displayBase with note } := by
  have hvalue : x.toRat = n := Option.some.inj hx
  have hsafe : safeInteger? (.finite x) = some n := by
    rw [safeInteger?, if_pos, hvalue, Rat.num_intCast]
    rw [Binary64.isSafeInteger, Finite.isIntegral, hvalue, Rat.den_intCast, Rat.num_intCast]
    exact decide_eq_true hn
  rw [ofFloat, hsafe]

/-- The text of a finite number reads back to a number of the same value, where unmarked numerals
are decimal. Every view of a safe integer does so too, and those in a radix with a mark do so
whatever unmarked numerals are read as. -/
theorem number_reads_back (ho : o.mode = .float) (x : Finite) :
    (∀ b : InputBase, b.radix = .dec →
      ReadsAsNumber { o with inputBase := b } (Binary64.finite x).text x.toRat) ∧
    ∀ n : Int, x.toRat = n → n.natAbs ≤ Binary64.maxSafeInteger → ∀ note (d : Display),
      ∀ a ∈ ((Result.float (.finite x) note).view d).alternates,
        (a.1 = "Dec" ∧ ∀ b : InputBase, b.radix = .dec →
          ReadsAsNumber { o with inputBase := b } a.2 x.toRat) ∨
        (a.1 ∈ ["Hex", "Oct", "Bin"] ∧ ∀ b : InputBase,
          ReadsAsNumber { o with inputBase := b } a.2 x.toRat) := by
  have htext (b : InputBase) (hb : b.radix = .dec) :
      ReadsAsNumber { o with inputBase := b } (Binary64.finite x).text x.toRat := by
    obtain ⟨cs, r, hcs, hwrites, hr⟩ := Binary64.text_writes x
    exact readsAsNumber_of_writes (o := { o with inputBase := b }) ho hb hwrites hr hcs
  refine ⟨htext, fun n hx hn note d a ha => ?_⟩
  have hlabels : ∀ r ∈ View.otherRadixes, r.label ∈ ["Hex", "Oct", "Bin"] ∧ r ≠ .dec := by decide
  change a ∈ (View.ofFloat (.finite x) note d).alternates at ha
  rw [View.ofFloat_of_isInteger (congrArg some hx) hn] at ha
  rcases View.mem_alternates_ofSafeInteger ha with rfl | ⟨r, hr, rfl⟩
  · exact .inl ⟨rfl, htext⟩
  · obtain ⟨hlabel, hne⟩ := hlabels r hr
    refine .inr ⟨hlabel, fun b => ?_⟩
    obtain ⟨cs, hcs, hspells⟩ := spellsNumber_write hne n
    rw [hx]
    exact readsAsNumber_of_spellsNumber (o := { o with inputBase := b }) ho hn hspells hcs

/-- The greatest number below zero is written with an exponent, and the hexadecimal view of -255 is
read where unmarked numerals are binary. -/
theorem number_reads_back_negative :
    ReadsAsNumber { mode := .float } "-5e-324" (-2 ^ (-1074 : Int)) ∧
    ReadsAsNumber { mode := .float, inputBase := .fixed .bin } "-0xFF" (-255) := by
  let least : Finite := ⟨true, 1, -1074, by decide, by decide, by decide, .inl rfl⟩
  let whole : Finite := ⟨true, 255 * 2 ^ 45, -45, by decide, by decide, by decide, .inr (by decide)⟩
  have hleast : least.toRat = -2 ^ (-1074 : Int) := by decide +kernel
  have hwhole : whole.toRat = (-255 : Int) := by decide +kernel
  constructor
  · have htext := (number_reads_back (o := { mode := .float }) rfl least).1 .auto rfl
    rwa [hleast, show (Binary64.finite least).text = "-5e-324" by decide +kernel] at htext
  · rcases (number_reads_back (o := { mode := .float }) rfl whole).2 (-255) hwhole (by decide) none
      { displayBase := .only .bin } ("Hex", "-0xFF") (by decide +kernel)
      with ⟨hlabel, -⟩ | ⟨-, hread⟩
    · exact absurd hlabel (by decide)
    · have hread := hread (.fixed .bin)
      rwa [hwhole] at hread

end Reckon
