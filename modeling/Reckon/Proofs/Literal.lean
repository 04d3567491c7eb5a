import Reckon.Proofs.ReadBack
import Reckon.Proofs.Text.Digits
import Reckon.Proofs.Token.Lossless

/-!
# Literals by their places

A literal is read in two steps. The scan gathers its digits and drops what stands between them; with
a mark it knows which characters are digits, without one it takes the decimal ones, whatever radix
they are to be read in. Only the arithmetic then looks at the radix and may miss a digit there. What
both agree on is the place of a character in the row of digits, its `ordinal`: a radix has the
digits whose ordinals are below its base, and a row of them is worth what the places say.
-/

namespace Reckon

open Scan (Spells)

namespace Radix

variable {r : Radix} {ds : List Char}

/-! ## Positional values

The digits of a radix and the ordinals are both given by tables, and within ASCII they are compared
character by character (`Text.of_ascii`). Beyond it neither table has an entry, but each for a
reason of its own: a digit is a character of a word, and no character in the row of digits is the
small form of one beyond ASCII. -/

/-- The place of a character in the row of digits; a capital counts as its small letter. What is no
digit of any radix has the place behind the last one. -/
def ordinal (c : Char) : Nat :=
  "0123456789abcdef".toList.idxOf c.toLower

/-- What digits are worth by their places, the first the most significant. -/
def positional (r : Radix) (ds : List Char) : Nat :=
  Nat.ofDigits r.base (ds.map ordinal).reverse

theorem digit?_eq_ordinal (r : Radix) (c : Char) :
    r.digit? c = if ordinal c < r.base then some (ordinal c) else none := by
  by_cases hascii : c.toNat < 0x80
  · exact Text.of_ascii
      (P := fun c => r.digit? c = if ordinal c < r.base then some (ordinal c) else none)
      (by cases r <;> decide +kernel) hascii
  · have hnot : r.digit? c = none := by
      rw [Option.eq_none_iff_forall_ne_some]
      intro d hd
      exact hascii (Scan.toNat_lt_of_isWordChar (isWordChar_of_isDigit (by rw [isDigit, hd]; rfl)))
    have hmem : c.toLower ∉ "0123456789abcdef".toList := by
      intro hmem
      have hdigits : ∀ d ∈ "0123456789abcdef".toList, d.toNat < 0x80 :=
        List.all_iff_forall_prop.mp (by decide)
      exact hascii (Text.toNat_toLower_lt.mp (hdigits _ hmem))
    have hlast : ordinal c = 16 := List.idxOf_eq_length hmem
    have hbase : r.base ≤ 16 := by cases r <;> decide
    rw [hnot, hlast, if_neg (by omega)]

theorem isDigit_iff_ordinal (c : Char) : r.isDigit c = true ↔ ordinal c < r.base := by
  rw [isDigit, digit?_eq_ordinal]
  split <;> simp_all

theorem isDigit_eq_ordinal (r : Radix) : r.isDigit = fun c => decide (ordinal c < r.base) := by
  funext c
  rw [Bool.eq_iff_iff, isDigit_iff_ordinal, decide_eq_true_iff]

theorem readOn_eq_ofDigits (h : ∀ c ∈ ds, ordinal c < r.base) (n : Nat) :
    r.readOn n ds =
      some (Nat.ofDigits r.base (ds.map ordinal).reverse + r.base ^ ds.length * n) :=
  Text.foldlM_eq_ofDigits r.base (fun c hc => by rw [digit?_eq_ordinal, if_pos (h c hc)]) n

/-- Digits of the radix denote their positional value. -/
theorem value?_eq_positional (h : ∀ c ∈ ds, ordinal c < r.base) :
    r.value? ds = some (r.positional ds) := by
  rw [value?_eq_readOn, readOn_eq_ofDigits h, Nat.mul_zero, Nat.add_zero]
  rfl

/-- Where one of them is none of the radix, they denote nothing. -/
theorem value?_eq_none (h : ¬ ∀ c ∈ ds, ordinal c < r.base) : r.value? ds = none := by
  rw [Option.eq_none_iff_forall_ne_some]
  intro n hn
  exact h fun c hc => (isDigit_iff_ordinal c).mp (isDigit_of_value? hn c hc)

theorem isBlank_of_ofMarkLetter? {m : Char} (h : ofMarkLetter? m = some r) :
    Text.isBlank m = false := by
  have hascii : m.toNat < 0x80 := by
    have hlower : m.toLower ∈ r.mark.toList := by simp [Scan.mark_of_ofMarkLetter? h]
    have hmark : ∀ c ∈ r.mark.toList, c.toNat < 0x80 :=
      List.all_iff_forall_prop.mp (by cases r <;> decide)
    exact Text.toNat_toLower_lt.mp (hmark _ hlower)
  exact Text.of_ascii (P := fun m => ofMarkLetter? m = some r → Text.isBlank m = false)
    (by cases r <;> decide +kernel) hascii h

end Radix

open Radix (ordinal)

section

variable {radix r : Radix} {c m : Char} {body : List Char}

/-- Decimal digits with blanks and underscores between them, to the end of the text. -/
theorem spells_digits (hc : Radix.dec.isDigit c = true)
    (hbody : ∀ d ∈ body, Text.isBlank d = true ∨ Radix.dec.isDigit d = true ∨ d = '_')
    (due : Bool) :
    Spells radix due (c :: body)
      [.number { text := String.ofList ((c :: body).filter Radix.dec.isDigit), radix }] false
      [] := by
  have hmark : c = '0' → ∀ d ∈ Scan.nextChar? (body ++ []), Radix.ofMarkLetter? d = none := by
    intro _ d hd
    rw [List.append_nil] at hd
    have hvisible : Text.isBlank d = false := by simpa using List.find?_some hd
    rcases hbody d (List.mem_of_find?_eq_some hd) with h | h | rfl
    · rw [h] at hvisible
      cases hvisible
    · exact Radix.ofMarkLetter?_of_isDigit h
    · decide
  have hspells : Spells radix due (c :: (body ++ [])) _ false [] :=
    .bare hc hbody hmark (by intro d hd; cases hd)
  rwa [List.append_nil, ← List.filter_cons_of_pos hc] at hspells

/-- A mark without digits after it is an error at its zero. -/
theorem tokenize_mark (hm : Radix.ofMarkLetter? m = some r)
    (hbody : ∀ d ∈ body, Text.isBlank d = true ∨ r.isDigit d = true ∨ d = '_')
    (hnone : body.filter r.isDigit = []) :
    tokenize radix (String.ofList ('0' :: m :: body)) = .error ⟨.malformedDigits r, 1⟩ := by
  have hzero : Radix.dec.isDigit '0' = true := by decide
  have hend : ∀ d ∈ Scan.nextChar? [], r.isDigit d = false ∧ d ≠ '_' := by
    intro d hd
    cases hd
  obtain ⟨_, _, hdigits, -⟩ := Scan.span_run hbody hend 3 false
  rw [List.append_nil, hnone] at hdigits
  have hannounced : Scan.announcedRadix? '0' (⟨m, 2, false⟩ :: Glyph.startingAt 3 false body) =
      some r := hm
  rw [tokenize, String.toList_ofList, Glyph.ofText, Glyph.startingAt_cons (by decide),
    Glyph.startingAt_cons (Radix.isBlank_of_ofMarkLetter? hm), Scan.tokens_cons,
    Scan.lexeme_numeral hzero]
  simp only [Scan.numeral, hannounced, List.tail_cons, Scan.markedNumeral, hdigits]
  rfl

end

variable {o : Options} {radix r : Radix} {c m : Char} {body : List Char}

/-- An integral numeral in a radix that lacks one of its digits has no value. -/
theorem Expr.result_of_value?_eq_none (ho : o.mode = .integer) {n : Numeral}
    (hn : n.fractional = false) (h : n.radix.value? n.text.toList = none) :
    (Expr.number n).result o = .error (.invalidDigits n) := by
  rw [Expr.result, ho]
  show ((if n.fractional then _ else n.integer >>= _ : Except EvalError (Int × Option String))).map
    _ = _
  rw [if_neg (by simp [hn]), Numeral.integer, h]
  rfl

theorem evaluate_digits (ho : o.mode = .integer) (hc : Radix.dec.isDigit c = true)
    (hbody : ∀ d ∈ body, Text.isBlank d = true ∨ Radix.dec.isDigit d = true ∨ d = '_')
    {ds : List Char} (hds : (c :: body).filter Radix.dec.isDigit = ds) :
    evaluate o (String.ofList (c :: body)) =
      if ds.all fun d => ordinal d < o.inputBase.radix.base then
        .ok (.word (o.inputBase.radix.positional ds % 2 ^ o.width.val) o)
      else .error (.evaluation
        (.invalidDigits { text := String.ofList ds, radix := o.inputBase.radix })) := by
  have hspells := @spells_digits o.inputBase.radix c body hc hbody
  rw [hds] at hspells
  have hne : ds ≠ [] := by
    rw [← hds, List.filter_cons_of_pos hc]
    exact List.cons_ne_nil _ _
  split
  · next hall =>
      have hall := List.all_iff_forall_prop.mp hall
      have hnumber : SpellsNumber o.inputBase.radix (c :: body) (o.inputBase.radix.positional ds) :=
        ⟨_, rfl, Numeral.integer_of_value? rfl hne (Radix.value?_eq_positional hall), hspells⟩
      exact evaluate_of_spellsNumber (x := o.inputBase.radix.positional ds) ho hnumber
        (by rw [String.toList_ofList, if_neg (by omega)])
  · next hnot =>
      have hvalue : o.inputBase.radix.value? (String.ofList ds).toList = none := by
        rw [String.toList_ofList]
        exact Radix.value?_eq_none (mt List.all_iff_forall_prop.mpr hnot)
      have htext : (String.ofList (c :: body)).toList =
          if False then '-' :: c :: body else c :: body := by
        rw [String.toList_ofList, if_neg id]
      rw [evaluate_of_numeral hspells htext, if_neg id,
        Expr.result_of_value?_eq_none ho rfl hvalue]
      rfl

theorem evaluate_marked (ho : o.mode = .integer) (hm : Radix.ofMarkLetter? m = some r)
    (hbody : ∀ d ∈ body, Text.isBlank d = true ∨ r.isDigit d = true ∨ d = '_')
    {ds : List Char} (hds : body.filter r.isDigit = ds) :
    evaluate o (String.ofList ('0' :: m :: body)) =
      if ds = [] then .error (.lexical ⟨.malformedDigits r, 1⟩)
      else .ok (.word (r.positional ds % 2 ^ o.width.val) o) := by
  split
  · next hnil =>
      have hblank : isBlankText (String.ofList ('0' :: m :: body)) = false := by
        rw [isBlankText, String.toList_ofList]
        rfl
      rw [evaluate_of_not_blank hblank, scan, tokenize_mark hm hbody (hds.trans hnil)]
      rfl
  · next hne =>
      have hdigits : ∀ d ∈ ds, ordinal d < r.base := by
        intro d hd
        rw [← hds] at hd
        exact (Radix.isDigit_iff_ordinal d).mp (List.mem_filter.mp hd).2
      have hnumber : SpellsNumber o.inputBase.radix ('0' :: m :: body) (r.positional ds) := by
        refine spellsNumber_marked hm (Radix.isBlank_of_ofMarkLetter? hm) hbody (hds ▸ hne) ?_
        rw [hds]
        exact Radix.value?_eq_positional hdigits
      exact evaluate_of_spellsNumber (x := r.positional ds) ho hnumber
        (by rw [String.toList_ofList, if_neg (by omega)])

/-- A literal is worth what its digits are by their places, reduced to the width, wherever blanks
and underscores stand between them. Without a mark the digits are decimal, but are read in the
radix of the options, which may lack some of them. With a mark they are those of its radix, and must
not be missing. -/
theorem evaluate_literal (ho : o.mode = .integer) :
    (∀ c body, ordinal c < 10 → (∀ d ∈ body, Text.isBlank d = true ∨ d = '_' ∨ ordinal d < 10) →
      let ds := (c :: body).filter fun d => ordinal d < 10
      evaluate o (String.ofList (c :: body)) =
        if ds.all fun d => ordinal d < o.inputBase.radix.base then
          .ok (.word (o.inputBase.radix.positional ds % 2 ^ o.width.val) o)
        else .error (.evaluation
          (.invalidDigits { text := String.ofList ds, radix := o.inputBase.radix }))) ∧
    ∀ (r : Radix) (m : Char) (body : List Char), r.mark.toList = ['0', m.toLower] →
      (∀ d ∈ body, Text.isBlank d = true ∨ d = '_' ∨ ordinal d < r.base) →
      let ds := body.filter fun d => ordinal d < r.base
      evaluate o (String.ofList ('0' :: m :: body)) =
        if ds = [] then .error (.lexical ⟨.malformedDigits r, 1⟩)
        else .ok (.word (r.positional ds % 2 ^ o.width.val) o) := by
  have hrun (r : Radix) {body : List Char}
      (h : ∀ d ∈ body, Text.isBlank d = true ∨ d = '_' ∨ ordinal d < r.base) :
      ∀ d ∈ body, Text.isBlank d = true ∨ r.isDigit d = true ∨ d = '_' := fun d hd =>
    (h d hd).imp_right fun h => h.symm.imp_left (Radix.isDigit_iff_ordinal d).mpr
  constructor
  · intro c body hc hbody
    exact evaluate_digits ho ((Radix.isDigit_iff_ordinal c).mpr hc) (hrun .dec hbody)
      (by rw [Radix.isDigit_eq_ordinal]; rfl)
  · intro r m body hmark hbody
    exact evaluate_marked ho (Scan.ofMarkLetter?_of_mark hmark) (hrun r hbody)
      (by rw [Radix.isDigit_eq_ordinal])

/-- In four bits, with octal digits unless marked. -/
theorem evaluate_literal_octal :
    let o : Options := { mode := .integer, inputBase := .fixed .oct, width := ⟨4, by decide⟩ }
    evaluate o "1_0 2" = .ok (.word 2 o) ∧
      evaluate o "1 9_" =
        .error (.evaluation (.invalidDigits { text := "19", radix := .oct })) ∧
      evaluate o "0X_f F" = .ok (.word 15 o) ∧
      evaluate o "0B _" = .error (.lexical ⟨.malformedDigits .bin, 1⟩) := by
  intro o
  obtain ⟨hbare, hmarked⟩ := @evaluate_literal o rfl
  have hchars {base : Nat} {body : List Char}
      (h : (body.all fun d => Text.isBlank d = true ∨ d = '_' ∨ ordinal d < base) = true) :
      ∀ d ∈ body, Text.isBlank d = true ∨ d = '_' ∨ ordinal d < base :=
    List.all_iff_forall_prop.mp h
  refine ⟨?_, ?_, ?_, ?_⟩
  · refine (hbare '1' "_0 2".toList (by decide) (hchars (by decide))).trans ?_
    rw [if_pos (by decide)]
    decide +kernel
  · exact hbare '1' " 9_".toList (by decide) (hchars (by decide))
  · refine (hmarked .hex 'X' "_f F".toList (by decide) (hchars (by decide))).trans ?_
    rw [if_neg (by decide)]
    decide +kernel
  · exact hmarked .bin 'B' " _".toList (by decide) (hchars (by decide))

end Reckon
