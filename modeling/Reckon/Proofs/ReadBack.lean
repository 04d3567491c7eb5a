import Reckon.Proofs.Compound
import Reckon.Proofs.Token.Numeral
import Reckon.Proofs.Unbounded
import Reckon.View

/-!
# Views read back

What a word is shown as can be typed in again. A view is a numeral, perhaps with a minus sign before
it: with a mark in the radixes that have one, so that it is read alike whatever unmarked
numerals are taken to be, and without one in decimal. Its underscores and blanks are no digits, so
what is read are the digits that were written, and those denote the number (`value?_digits`). The
sign is the prefix operator, and the value wraps: the signed view of a word denotes a negative
number whose residue is the word.
-/

namespace Reckon

open Scan (Spells)

variable {o : Options} {text : String} {cs : List Char}

/-- The characters spell a numeral of the given value. -/
def SpellsNumber (radix : Radix) (cs : List Char) (x : Nat) : Prop :=
  ∃ n : Numeral, n.fractional = false ∧ n.integer = .ok x ∧
    ∀ due, Spells radix due cs [.number n] false []

/-- A text that spells a numeral, or a numeral after a minus sign, has the outcome of this tree. -/
theorem evaluate_of_numeral {n : Numeral} {negative : Prop} [Decidable negative]
    (hspells : ∀ due, Spells o.inputBase.radix due cs [.number n] false [])
    (htext : text.toList = if negative then '-' :: cs else cs) :
    evaluate o text =
      ((if negative then Expr.unary .minus (.number n) else .number n).result o).mapError
        Fault.evaluation := by
  have hreads : Yard.Reads .unary [.number n] (.number n) :=
    (Yard.reads_phrase .number).widen (by decide)
  split at htext
  · next hneg =>
      have hspelled := (Spells.unary .minus).trans (hspells true)
      change Spells _ _ ('-' :: cs) _ _ _ at hspelled
      rw [← htext] at hspelled
      rw [if_pos hneg]
      exact evaluate_of_spells hspelled ((Yard.Reads.unary .minus hreads).widen (by decide))
  · next hpos =>
      have hspelled := hspells true
      rw [← htext] at hspelled
      rw [if_neg hpos]
      exact evaluate_of_spells hspelled (hreads.widen (by decide))

/-- A numeral has the residue of its value, and so has its negative. -/
theorem evaluate_of_spellsNumber (ho : o.mode = .integer) {x : Int}
    (h : SpellsNumber o.inputBase.radix cs x.natAbs)
    (htext : text.toList = if x < 0 then '-' :: cs else cs) :
    evaluate o text = .ok (.word (x % 2 ^ o.width.val) o) := by
  obtain ⟨n, hfractional, hinteger, hspells⟩ := h
  have hnumber : Expr.Denotes (6 ≤ o.width.val) (.number n) x.natAbs := .number hfractional hinteger
  have hdenotes : Expr.Denotes (6 ≤ o.width.val)
      (if x < 0 then .unary .minus (.number n) else .number n) x := by
    split
    · next hneg =>
        have hminus := hnumber.minus
        rwa [show -(x.natAbs : Int) = x by omega] at hminus
    · next hpos => rwa [show (x.natAbs : Int) = x by omega] at hnumber
  rw [evaluate_of_numeral hspells htext, hdenotes.result ho]
  rfl

/-! ## Texts of numbers

The scanner keeps the digits of a numeral and drops the rest, so it is the digits alone that have to
be the written ones, however they are grouped. In decimal there is no mark to stand before them, and
then the reader is led astray by two things: a character that goes on with the number, and a mark
letter after a zero. A zero stands first in the digits of a number only if it is the number, and so
the second has to be kept away from `0` alone (`spells_repr`). -/

theorem Numeral.integer_of_value? {n : Numeral} {ds : List Char} {x : Nat}
    (htext : n.text = String.ofList ds) (hne : ds ≠ []) (h : n.radix.value? ds = some x) :
    n.integer = .ok x := by
  have hempty : n.text.isEmpty = false := by
    rw [htext]
    simpa using hne
  rw [Numeral.integer, htext, String.toList_ofList, h, ← htext, hempty]
  rfl

/-- A mark and what holds the digits of a number in their order. -/
theorem spellsNumber_marked {radix r : Radix} {m : Char} {body : List Char} {x : Nat}
    (hm : Radix.ofMarkLetter? m = some r) (hblank : Text.isBlank m = false)
    (hbody : ∀ c ∈ body, Text.isBlank c = true ∨ r.isDigit c = true ∨ c = '_')
    (hne : body.filter r.isDigit ≠ []) (hx : r.value? (body.filter r.isDigit) = some x) :
    SpellsNumber radix ('0' :: m :: body) x := by
  refine ⟨{ text := String.ofList (body.filter r.isDigit), radix := r, marked := true }, rfl,
    Numeral.integer_of_value? rfl hne hx, fun due => ?_⟩
  have hspells : Spells radix due ('0' :: m :: (body ++ [])) _ false [] :=
    .marked hm hblank hbody hne (by intro c hc; cases hc)
  rwa [List.append_nil] at hspells

/-- The decimal digits of a number, in front of what does not go on with them. A zero alone must not
be taken for the beginning of a mark either. -/
theorem spells_repr (x : Nat) (rest : List Char)
    (hrest : ∀ d ∈ Scan.nextChar? rest, (Radix.dec.isDigit d = false ∧ d ≠ '_') ∧
      d ≠ '.' ∧ d ≠ 'e' ∧ d ≠ 'E')
    (hmark : x = 0 → ∀ d ∈ Scan.nextChar? rest, Radix.ofMarkLetter? d = none) :
    ∃ n : Numeral, n.fractional = false ∧ n.integer = .ok x ∧
      ∀ due, Spells .dec due (x.repr.toList ++ rest) [.number n] false rest := by
  have hvalue := Radix.value?_repr x
  have hdigits := Radix.isDigit_of_value? hvalue
  have hne : x.repr.toList ≠ [] := by simp
  match hcs : x.repr.toList with
  | [] => exact absurd hcs hne
  | c :: cs =>
      rw [hcs] at hvalue hdigits hne
      obtain ⟨hc, hrun⟩ := List.forall_mem_cons.mp hdigits
      have hfilter : cs.filter Radix.dec.isDigit = cs := List.filter_eq_self.mpr hrun
      refine ⟨{ text := String.ofList (c :: cs) }, rfl, Numeral.integer_of_value? rfl hne hvalue,
        fun due => ?_⟩
      have hzero : c = '0' → ∀ d ∈ Scan.nextChar? (cs ++ rest), Radix.ofMarkLetter? d = none := by
        rintro rfl
        cases cs with
        | nil => exact hmark (Option.some.inj hvalue).symm
        | cons d ds =>
            have hd : Radix.dec.isDigit d = true := hrun d (by simp)
            intro d' hd'
            rw [List.cons_append, Scan.nextChar?,
              List.find?_cons_of_pos (by simp [Radix.isBlank_of_isDigit hd])] at hd'
            cases hd'
            exact Radix.ofMarkLetter?_of_isDigit hd
      have hspells : Spells .dec due (c :: (cs ++ rest)) _ false rest :=
        .bare hc (fun d hd => .inr (.inl (hrun d hd))) hzero hrest
      rwa [hfilter] at hspells

theorem spellsNumber_repr (x : Nat) : SpellsNumber .dec x.repr.toList x := by
  obtain ⟨n, hfractional, hinteger, hspells⟩ := spells_repr x []
    (by intro d hd; cases hd) (by intro _ d hd; cases hd)
  refine ⟨n, hfractional, hinteger, fun due => ?_⟩
  have hspells := hspells due
  rwa [List.append_nil] at hspells

theorem toList_toString_int (x : Int) : (toString x).toList =
    if x < 0 then '-' :: x.natAbs.repr.toList else x.natAbs.repr.toList := by
  rw [Int.toString_eq_repr, Int.repr_eq_if]
  by_cases hx : x < 0
  · rw [if_neg (by omega), if_pos hx, show (-x).toNat = x.natAbs by omega]
    simp
  · rw [if_pos (by omega), if_neg hx, show x.toNat = x.natAbs by omega]

/-- The digits in groups, as a view has them. -/
theorem groupDigits_digits (r : Radix) (x size : Nat) :
    (Text.groupDigits (r.digits x) size "_").toList.filter r.isDigit = r.digits x ∧
      ∀ c ∈ (Text.groupDigits (r.digits x) size "_").toList, r.isDigit c = true ∨ c = '_' := by
  have hdigits := Radix.isDigit_of_value? (r.value?_digits x)
  have hunderscore : ['_'].filter r.isDigit = [] := by cases r <;> decide
  rw [Text.groupDigits, Text.toList_joinGroups]
  constructor
  · refine (Text.filter_intercalate hunderscore _).trans ?_
    rw [Text.flatten_chunksFromRight, List.filter_eq_self.mpr hdigits]
  · intro c hc
    rcases Text.mem_of_mem_intercalate hc with h | h
    · exact .inr (by simpa using h)
    · rw [Text.flatten_chunksFromRight] at h
      exact .inl (hdigits c h)

/-- What a number is written as in a radix with a mark. -/
theorem spellsNumber_write {radix r : Radix} (hr : r ≠ .dec) (x : Int) :
    ∃ cs, (r.write x).toList = (if x < 0 then '-' :: cs else cs) ∧
      SpellsNumber radix cs x.natAbs := by
  obtain ⟨m, hmark, hm, hblank⟩ : ∃ m, r.mark.toList = ['0', m] ∧ Radix.ofMarkLetter? m = some r ∧
      Text.isBlank m = false := by
    cases r with
    | bin => exact ⟨'b', rfl, rfl, by decide⟩
    | oct => exact ⟨'o', rfl, rfl, by decide⟩
    | hex => exact ⟨'x', rfl, rfl, by decide⟩
    | dec => exact absurd rfl hr
  obtain ⟨hfilter, hchars⟩ := groupDigits_digits r x.natAbs r.groupSize
  refine ⟨'0' :: m :: (Text.groupDigits (r.digits x.natAbs) r.groupSize "_").toList, ?_,
    spellsNumber_marked hm hblank (fun c hc => .inr (hchars c hc)) ?_ ?_⟩
  · have hwrite : r.write x = (if x < 0 then "-" else "") ++ r.mark ++
        Text.groupDigits (r.digits x.natAbs) r.groupSize "_" := by
      cases r <;> first | rfl | exact absurd rfl hr
    rw [hwrite, String.toList_append, String.toList_append, hmark]
    split <;> simp
  · rw [hfilter]
    exact r.digits_ne_nil _
  · rw [hfilter]
    exact r.value?_digits _

/-- The bits of a word after the mark for bits, with the blanks between them. -/
theorem spellsNumber_pattern {radix : Radix} {width : Nat} (hwidth : 0 < width) (v : Int) :
    SpellsNumber radix ("0b" ++ Word.pattern width v).toList (Word.residue width v).toNat := by
  have hvalue := Word.value?_bits width (Word.residue width v).toNat
  have hdigits := Radix.isDigit_of_value? hvalue
  have hlt : (Word.residue width v).toNat < Word.modulus width := by
    have hres := Word.residue_lt width v
    have hnonneg := Word.residue_nonneg width v
    omega
  rw [show (Word.residue width v).toNat % 2 ^ width = _ from Nat.mod_eq_of_lt hlt] at hvalue
  have hfilter : (Word.pattern width v).toList.filter Radix.bin.isDigit =
      Word.bits width (Word.residue width v).toNat := by
    rw [Word.pattern, Text.toList_joinGroups]
    refine (Text.filter_intercalate (by decide) _).trans ?_
    rw [Text.flatten_chunks, List.filter_eq_self.mpr hdigits]
  rw [String.toList_append]
  show SpellsNumber radix ('0' :: 'b' :: (Word.pattern width v).toList) _
  refine spellsNumber_marked rfl (by decide) ?_ ?_ ?_
  · intro c hc
    rw [Word.pattern, Text.toList_joinGroups] at hc
    rcases Text.mem_of_mem_intercalate hc with h | h
    · have hblank : c = ' ' := by simpa using h
      exact .inl (by rw [hblank]; decide)
    · rw [Text.flatten_chunks] at h
      exact .inr (.inl (hdigits c h))
  · rw [hfilter]
    exact List.ne_nil_of_length_pos (by rw [Word.length_bits]; exact hwidth)
  · rw [hfilter]
    exact hvalue

/-- The text evaluates to the word when unmarked numerals are read as `b` says. -/
def ReadsAs (o : Options) (b : InputBase) (text : String) (v : Int) : Prop :=
  evaluate { o with inputBase := b } text = .ok (.word v { o with inputBase := b })

variable {b : InputBase} {x v : Int}

theorem readsAs_write {r : Radix} (ho : o.mode = .integer) (hr : r ≠ .dec) (x : Int) :
    ReadsAs o b (r.write x) (x % 2 ^ o.width.val) := by
  obtain ⟨cs, htext, hspells⟩ := spellsNumber_write hr x
  exact evaluate_of_spellsNumber (o := { o with inputBase := b }) ho hspells htext

theorem readsAs_decimal (ho : o.mode = .integer) (hb : b.radix = .dec) (x : Int) :
    ReadsAs o b (toString x) (x % 2 ^ o.width.val) := by
  refine evaluate_of_spellsNumber (o := { o with inputBase := b }) ho ?_ (toList_toString_int x)
  show SpellsNumber b.radix _ _
  rw [hb]
  exact spellsNumber_repr _

theorem readsAs_pattern (ho : o.mode = .integer) (v : Int) :
    ReadsAs o b ("0b" ++ Word.pattern o.width v) (Word.residue o.width v) := by
  have hnonneg := Word.residue_nonneg o.width v
  have hspells : SpellsNumber b.radix _ _ := spellsNumber_pattern o.width.property v
  rw [show (Word.residue o.width v).toNat = (Word.residue o.width v).natAbs by omega] at hspells
  have hread : ReadsAs o b _ _ :=
    evaluate_of_spellsNumber (o := { o with inputBase := b }) ho hspells
      (by rw [if_neg (by omega)])
  have hresidue := Word.residue_residue o.width v
  rw [Word.residue, Word.modulus_eq] at hresidue
  rwa [hresidue] at hread

/-- Both decimal views of a word read back. -/
theorem readsAs_shown (ho : o.mode = .integer) (hb : b.radix = .dec)
    (hv : Word.residue o.width v = v) :
    ReadsAs o b (toString v) v ∧ ReadsAs o b (toString (Word.reading o.width v)) v := by
  have hmod {x : Int} (hx : Word.residue o.width x = v) : ReadsAs o b (toString x) v := by
    have hread : ReadsAs o b (toString x) _ := readsAs_decimal ho hb x
    rw [Word.residue, Word.modulus_eq] at hx
    rwa [hx] at hread
  exact ⟨hmod hv, hmod ((Word.residue_reading o.width v).trans hv)⟩

namespace View

variable {d : Display}

theorem mem_inRadixes {rs : List Radix} {a : String × String} (h : a ∈ inRadixes rs x) :
    ∃ r ∈ rs, a = (r.label, r.write x) := by
  obtain ⟨r, hr, ha⟩ := List.mem_map.mp h
  exact ⟨r, hr, ha.symm⟩

/-- Beside a word its value is listed in other radixes, and in decimal with a sign or without. -/
theorem mem_alternates_ofWord (hv : Word.residue d.width v = v) {a : String × String}
    (h : a ∈ (ofWord v d).alternates) :
    (∃ r ∈ otherRadixes, a = (r.label, r.write v)) ∨
      a.1 ∈ ["Dec", "Dec (signed)", "Dec (unsigned)"] ∧
        (a.2 = toString v ∨ a.2 = toString (Word.reading d.width v)) := by
  unfold ofWord at h
  simp only [hv] at h
  split at h
  · rcases List.mem_cons.mp h with rfl | h
    · exact .inr ⟨by simp, .inr rfl⟩
    · rcases List.mem_cons.mp h with rfl | h
      · exact .inr ⟨by simp, .inl rfl⟩
      · exact .inl (mem_inRadixes h)
  · rcases List.mem_cons.mp h with rfl | h
    · refine .inr ⟨by simp, ?_⟩
      cases d.signed
      · exact .inl rfl
      · exact .inr rfl
    · obtain ⟨r, hr, ha⟩ := mem_inRadixes h
      exact .inl ⟨r, (List.mem_filter.mp hr).1, ha⟩

theorem primary_ofWord (hv : Word.residue d.width v = v) {r : Radix}
    (hd : d.displayBase = .only r) :
    (r ≠ .dec ∧ (ofWord v d).primary = r.write v) ∨
      r = .dec ∧ ((ofWord v d).primary = toString v ∨
        (ofWord v d).primary = toString (Word.reading d.width v)) := by
  unfold ofWord
  simp only [hv, hd]
  by_cases hr : r = .dec
  · refine .inr ⟨hr, ?_⟩
    simp only [hr, if_true]
    cases d.signed
    · exact .inl rfl
    · exact .inr rfl
  · exact .inl ⟨hr, by simp only [hr, if_false]⟩

theorem bitPattern_ofWord (hv : Word.residue d.width v = v) :
    (ofWord v d).bitPattern = some (Word.pattern d.width v) := by
  unfold ofWord
  simp only [hv]
  cases d.displayBase <;> rfl

end View

/-- Every view of a word reads back to the word under the options of the word itself, and so do its
bits. What is listed in a radix with a mark does so whatever unmarked numerals are read as; what is
listed in decimal does so where they are decimal. -/
theorem view_reads_back (ho : o.mode = .integer) (hnonneg : 0 ≤ v) (hlt : v < 2 ^ o.width.val) :
    (∀ a ∈ ((Result.word v o).view o.display).alternates,
      (a.1 ∈ ["Hex", "Oct", "Bin"] ∧ ∀ b, ReadsAs o b a.2 v) ∨
      (a.1 ∈ ["Dec", "Dec (signed)", "Dec (unsigned)"] ∧
        ∀ b, b.radix = .dec → ReadsAs o b a.2 v)) ∧
    (∀ r b, o.displayBase = .only r → (r = .dec → b.radix = .dec) →
      ReadsAs o b ((Result.word v o).view o.display).primary v) ∧
    (∀ b, ∃ bits, ((Result.word v o).view o.display).bitPattern = some bits ∧
      ReadsAs o b ("0b" ++ bits) v) ∧
    ∀ b (x : Int) (r : Radix), r ≠ .dec → ReadsAs o b (r.write x) (x % 2 ^ o.width.val) := by
  have hres : Word.residue o.display.width v = v :=
    Word.residue_eq_self hnonneg (by rw [Word.modulus_eq]; exact hlt)
  have hlabels : ∀ r ∈ View.otherRadixes, r.label ∈ ["Hex", "Oct", "Bin"] ∧ r ≠ .dec := by decide
  have hmarked {r : Radix} (hr : r ≠ .dec) (b : InputBase) : ReadsAs o b (r.write v) v := by
    have hread : ReadsAs o b (r.write v) _ := readsAs_write ho hr v
    rwa [Int.emod_eq_of_lt hnonneg hlt] at hread
  have hdecimal {text : String} {b : InputBase} (hb : b.radix = .dec)
      (htext : text = toString v ∨ text = toString (Word.reading o.display.width v)) :
      ReadsAs o b text v := by
    rcases htext with rfl | rfl
    · exact (readsAs_shown ho hb hres).1
    · exact (readsAs_shown ho hb hres).2
  refine ⟨fun a ha => ?alternates, fun r b hd hb => ?primary, fun b => ?bits,
    fun b x r hr => readsAs_write ho hr x⟩
  case alternates =>
    rcases View.mem_alternates_ofWord hres ha with ⟨r, hr, rfl⟩ | ⟨hlabel, htext⟩
    · obtain ⟨hlabel, hne⟩ := hlabels r hr
      exact .inl ⟨hlabel, hmarked hne⟩
    · exact .inr ⟨hlabel, fun b hb => hdecimal hb htext⟩
  case primary =>
    rcases View.primary_ofWord hres hd with ⟨hr, htext⟩ | ⟨hr, htext⟩
    · rw [show ((Result.word v o).view o.display).primary = _ from htext]
      exact hmarked hr b
    · exact hdecimal (hb hr) htext
  case bits =>
    have hread : ReadsAs o b _ _ := readsAs_pattern ho v
    rw [show Word.residue o.width v = v from hres] at hread
    exact ⟨_, View.bitPattern_ofWord hres, hread⟩

/-- At eight bits, 200 is also -56. -/
theorem view_reads_back_signed :
    ReadsAs { mode := .integer, displayBase := .all, width := ⟨8, by decide⟩ } .auto "-56" 200 ∧
    ReadsAs { mode := .integer, displayBase := .all, width := ⟨8, by decide⟩ } (.fixed .hex)
      "0b1100 1000" 200 := by
  obtain ⟨halternates, -, hbits, -⟩ := view_reads_back
    (o := { mode := .integer, displayBase := .all, width := ⟨8, by decide⟩ }) (v := 200) rfl
    (by decide) (by decide)
  constructor
  · rcases halternates ("Dec (signed)", "-56") (by decide +kernel) with ⟨hlabel, -⟩ | ⟨-, hread⟩
    · exact absurd hlabel (by decide)
    · exact hread .auto rfl
  · obtain ⟨bits, hpattern, hread⟩ := hbits (.fixed .hex)
    have hbits : bits = "1100 1000" :=
      Option.some.inj (hpattern.symm.trans (by decide +kernel))
    rwa [hbits] at hread

end Reckon
