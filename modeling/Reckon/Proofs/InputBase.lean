import Reckon.Proofs.Balance
import Reckon.Proofs.Token.InputRadix

/-!
# How far the input base reaches

The base that integers are read in by default is asked for at one place, where a scan meets an
integral numeral without a mark. So two bases give the same tokens but for the radixes of those
numerals; the yard groups them alike, as it does not look at numerals; and the arithmetics do not
know the base at all. A text that has no such numeral has one outcome under all bases.
-/

namespace Reckon

variable {r r' : Radix}

/-- The result under options with another input base. Only a word knows its options. -/
def Result.rebase (b : InputBase) : Result → Result
  | float x note => float x note
  | word value o => word value { o with inputBase := b }

/-- Lexemes without a numeral that takes its radix from the options are the same. -/
theorem Lexeme.Related.eq_of_fixed {l l' : Lexeme} (h : l.Related (Numeral.Rebased r r') l')
    (hl : ∀ n, l = .number n → n.marked = true ∨ n.fractional = true) : l = l' := by
  cases l with
  | number n =>
      cases l' with
      | number m =>
          cases (show Numeral.Rebased r r' n m from h) with
          | bare => exact absurd (hl _ rfl) (by simp)
          | fixed _ => rfl
      | name _ | callHead _ | operator _ | leftParen | rightParen | comma => cases h
  | name _ | callHead _ | operator _ | leftParen | rightParen | comma => exact h

theorem tokens_eq_of_fixed {ts us : List Token}
    (h : List.Forall₂ (Token.Related (Numeral.Rebased r r')) ts us)
    (hts : ∀ t ∈ ts, ∀ n, t.lexeme = .number n → n.marked = true ∨ n.fractional = true) :
    ts = us := by
  induction h with
  | nil => rfl
  | @cons t u ts us ht _ ih =>
      obtain ⟨hfixed, hfixeds⟩ := List.forall_mem_cons.mp hts
      obtain ⟨l, position⟩ := t
      obtain ⟨l', _⟩ := u
      obtain ⟨rfl, hl⟩ := ht
      obtain rfl : l = l' := hl.eq_of_fixed hfixed
      rw [ih hfixeds]

theorem Program.evaluate_rebase (o : Options) (b : InputBase) (p : Program) :
    p.evaluate { o with inputBase := b } = (p.evaluate o).map (Result.rebase b) := by
  obtain ho | ho : o.mode = .float ∨ o.mode = .integer := by cases o.mode <;> simp
  · rw [evaluate_float (o := { o with inputBase := b }) ho, evaluate_float ho]
    cases Machine.evaluate Arithmetic.floats p <;> rfl
  · have hformat : Options.wordFormat { o with inputBase := b } = o.wordFormat := rfl
    rw [evaluate_integer (o := { o with inputBase := b }) ho, evaluate_integer ho, hformat]
    cases Machine.evaluate (Arithmetic.words o.wordFormat) p <;> rfl

/-- After the scan the base is not asked for. -/
theorem evaluate_rebase (o : Options) {b b' : InputBase} {text : String}
    (h : tokenize b.radix text = tokenize b'.radix text) :
    evaluate { o with inputBase := b' } text =
      (evaluate { o with inputBase := b } text).map (Result.rebase b') := by
  cases hblank : isBlankText text with
  | true =>
      rw [evaluate, evaluate, hblank]
      rfl
  | false =>
      rw [evaluate_of_not_blank hblank, evaluate_of_not_blank hblank, scan, scan, ← h]
      show (_ >>= _) = Result.rebase b' <$> (_ >>= _)
      rw [map_bind]
      refine bind_congr fun ts => ?_
      show (group ts >>= _) = Result.rebase b' <$> (group ts >>= _)
      rw [map_bind]
      refine bind_congr fun p => ?_
      have hrebase := p.evaluate_rebase { o with inputBase := b } b'
      dsimp only at hrebase
      rw [hrebase]
      cases p.evaluate { o with inputBase := b } <;> rfl

/-- The input base reaches the integral numerals without a mark and nothing else. Under two bases a
text has the same tokens but for the radix of such numerals, or the same lexical error; it has the
same program but for those numerals, or is refused for the same reason; and if it has no such
numerals, it has the same result, save that a word knows under which options it was computed, or the
same fault. -/
theorem input_base_confined (o : Options) (b b' : InputBase) (text : String) :
    Agree (List.Forall₂ (Token.Related (Numeral.Rebased b.radix b'.radix)))
      (tokenize b.radix text) (tokenize b'.radix text) ∧
    Agree (List.Forall₂ (Instruction.Related (Numeral.Rebased b.radix b'.radix)))
      (scan { o with inputBase := b } text >>= group)
      (scan { o with inputBase := b' } text >>= group) ∧
    ((∀ ts, tokenize b.radix text = .ok ts → ∀ t ∈ ts, ∀ n, t.lexeme = .number n →
        n.marked = true ∨ n.fractional = true) →
      evaluate { o with inputBase := b' } text =
        (evaluate { o with inputBase := b } text).map (Result.rebase b')) := by
  have htokens : Agree (List.Forall₂ (Token.Related (Numeral.Rebased b.radix b'.radix)))
      (tokenize b.radix text) (tokenize b'.radix text) := tokenize_related text
  refine ⟨htokens, ?_, fun hfixed => ?_⟩
  · refine (htokens.mapError Fault.lexical).bind fun ts us h => Agree.mapError ?_ _
    exact Program.ofLexemes_related <|
      List.forall₂_map_left_iff.mpr (List.forall₂_map_right_iff.mpr (h.imp fun _ _ h => h.2))
  · exact evaluate_rebase o (htokens.eq fun ts hts us h => tokens_eq_of_fixed h (hfixed ts hts))

/-- With marks, a point and an exponent, in binary and in hexadecimal. -/
theorem input_base_confined_marked :
    let text := "0x1F % 0b11 - .5e0"
    let binary : Options := { inputBase := .fixed .bin }
    let hexadecimal : Options := { inputBase := .fixed .hex }
    (∀ ts, tokenize .bin text = .ok ts → ∀ t ∈ ts, ∀ n, t.lexeme = .number n →
      n.marked = true ∨ n.fractional = true) ∧
    evaluate binary text = .ok (.float Binary64.Guarded.half none) ∧
    evaluate hexadecimal text = .ok (.float Binary64.Guarded.half none) := by
  intro text binary hexadecimal
  have htokens : tokenize .bin text = .ok
      [⟨.number { text := "1F", radix := .hex, marked := true }, 1⟩, ⟨.operator (.binary .mod), 6⟩,
        ⟨.number { text := "11", radix := .bin, marked := true }, 8⟩,
        ⟨.operator (.binary .sub), 13⟩, ⟨.number { text := ".5e0", fractional := true }, 15⟩] :=
    eq_ok_of_toOption (by decide +kernel)
  have hfixed : ∀ ts, tokenize .bin text = .ok ts → ∀ t ∈ ts, ∀ n, t.lexeme = .number n →
      n.marked = true ∨ n.fractional = true := by
    rw [htokens]
    rintro ts ⟨⟩
    simp
  have hbinary : evaluate binary text = .ok (.float Binary64.Guarded.half none) :=
    eq_ok_of_toOption (by decide +kernel)
  have hsame := (input_base_confined {} (.fixed .bin) (.fixed .hex) text).2.2 hfixed
  refine ⟨hfixed, hbinary, hsame.trans ?_⟩
  rw [show evaluate { inputBase := .fixed .bin } text = _ from hbinary]
  rfl

end Reckon
