import Reckon.Proofs.ReadBack

/-!
# An operator between two numerals

In `a op b`, with decimal numerals and a blank on either side of the operator, every operator is
read as itself: what follows the first numeral goes on with no run of digits, and what follows the
operator goes on with no longer one. The text has the value of the operator on the two words.

There is one exception. Blanks are gone before a numeral is read, so the operator directly follows
the digits, and a zero in front of `xor` is taken for the mark `0x` (`evaluate_zero_xor`). The blank
that keeps `xor` apart from the numeral after it does nothing for the numeral before it.
-/

namespace Reckon

open Scan (Spells)

theorem Scan.nextChar?_symbol (op : BinaryOp) (cs : List Char) :
    Scan.nextChar? (' ' :: (op.symbol.toList ++ cs)) = op.symbol.toList.head? := by
  cases op <;> rfl

/-- Operators go on with no decimal numeral, and only `xor` begins like the letter of a mark. -/
theorem BinaryOp.head?_symbol (op : BinaryOp) {c : Char} (hc : c ∈ op.symbol.toList.head?) :
    ((Radix.dec.isDigit c = false ∧ c ≠ '_') ∧ c ≠ '.' ∧ c ≠ 'e' ∧ c ≠ 'E') ∧
      (op ≠ .bitXor → Radix.ofMarkLetter? c = none) := by
  cases op <;> (cases hc; decide)

theorem spells_infix {op : BinaryOp} {a : Nat} (h : ¬ (op = .bitXor ∧ a = 0)) (b : Nat) :
    ∃ n m : Numeral, (n.fractional = false ∧ n.integer = .ok a) ∧
      (m.fractional = false ∧ m.integer = .ok b) ∧
      Spells .dec true (a.repr.toList ++ ' ' :: (op.symbol.toList ++ ' ' :: b.repr.toList))
        [.number n, .operator (.binary op), .number m] false [] := by
  obtain ⟨n, hn, hna, hleft⟩ :=
    spells_repr a (' ' :: (op.symbol.toList ++ ' ' :: b.repr.toList))
      (fun d hd => (op.head?_symbol (Scan.nextChar?_symbol op _ ▸ hd)).1)
      (fun ha d hd =>
        (op.head?_symbol (Scan.nextChar?_symbol op _ ▸ hd)).2 fun hop => h ⟨hop, ha⟩)
  obtain ⟨m, hm, hmb, hright⟩ := spellsNumber_repr b
  refine ⟨n, m, ⟨hn, hna⟩, ⟨hm, hmb⟩, (hleft true).trans ?_⟩
  have hdigits := Radix.isDigit_of_value? (Radix.value?_repr b)
  have hne : b.repr.toList ≠ [] := by simp
  match hcs : b.repr.toList with
  | [] => exact absurd hcs hne
  | d :: ds =>
      rw [hcs] at hdigits hright
      have hd : Radix.dec.isDigit d = true := hdigits d (by simp)
      have hpaired : ∀ c, Scan.pairedOperator? c d = none := by
        intro c
        unfold Scan.pairedOperator?
        split <;> first | rfl | exact absurd hd (by decide)
      exact (Spells.binary op (Radix.isBlank_of_isDigit hd) hpaired).trans (hright true)

/-- A zero in front of `xor` is taken for a mark, and the mark has no digits. -/
theorem evaluate_zero_xor (o : Options) (b : Nat) :
    evaluate o (Nat.repr 0 ++ " " ++ BinaryOp.bitXor.symbol ++ " " ++ b.repr) =
      .error (.lexical ⟨.malformedDigits .hex, 1⟩) := by
  generalize htext : Nat.repr 0 ++ " " ++ BinaryOp.bitXor.symbol ++ " " ++ b.repr = text
  have htext : text.toList = '0' :: ' ' :: 'x' :: 'o' :: 'r' :: ' ' :: b.repr.toList := by
    rw [← htext]
    simp [BinaryOp.symbol]
  have hblank : isBlankText text = false := by
    rw [isBlankText, htext]
    rfl
  have htokens : tokenize o.inputBase.radix text = .error ⟨.malformedDigits .hex, 1⟩ := by
    rw [tokenize, htext, Glyph.ofText, Glyph.startingAt_cons (by decide), Scan.tokens_cons]
    rfl
  rw [evaluate_of_not_blank hblank, scan, htokens]
  rfl

section

variable {o : Options}

/-- The tree of an operator over two numerals has the value of the operator on their words. -/
theorem Expr.result_infix (ho : o.mode = .integer) (op : BinaryOp) {n m : Numeral} {a b : Nat}
    (hn : n.fractional = false ∧ n.integer = .ok a)
    (hm : m.fractional = false ∧ m.integer = .ok b) :
    (Expr.binary op (.number n) (.number m)).result o =
      (o.wordFormat.binary op (o.wordFormat.residue a) (o.wordFormat.residue b)).map
        (Result.word · o) := by
  have hleft : Expr.HasWord o.wordFormat (.number n) a := Expr.Denotes.hasWord (.number hn.1 hn.2)
  have hright : Expr.HasWord o.wordFormat (.number m) b := Expr.Denotes.hasWord (.number hm.1 hm.2)
  rw [Expr.result, ho]
  show ((Expr.binary op (.number n) (.number m)).evaluate (Arithmetic.words o.wordFormat)).map _ = _
  rw [Expr.evaluate_binary op hleft hright]
  show (o.wordFormat.binary op _ _ >>= fun x => .ok (x, none)).map _ = _
  cases o.wordFormat.binary op (o.wordFormat.residue a) (o.wordFormat.residue b) <;> rfl

/-- An operator between two decimal numerals acts on their words, unless it is `xor` after a zero:
such a text has no tokens. -/
theorem evaluate_infix (ho : o.mode = .integer) (hb : o.inputBase.radix = .dec) (op : BinaryOp)
    (a b : Nat) :
    evaluate o (a.repr ++ " " ++ op.symbol ++ " " ++ b.repr) =
      if op = .bitXor ∧ a = 0 then .error (.lexical ⟨.malformedDigits .hex, 1⟩)
      else ((o.wordFormat.binary op (o.wordFormat.residue a) (o.wordFormat.residue b)).map
        (Result.word · o)).mapError Fault.evaluation := by
  split
  · next h =>
      obtain ⟨rfl, rfl⟩ := h
      exact evaluate_zero_xor o b
  · next h =>
      obtain ⟨n, m, hn, hm, hspells⟩ := spells_infix h b
      have htext : (a.repr ++ " " ++ op.symbol ++ " " ++ b.repr).toList =
          a.repr.toList ++ ' ' :: (op.symbol.toList ++ ' ' :: b.repr.toList) := by
        simp
      rw [← htext, ← hb] at hspells
      have hreads : Yard.Reads .or [.number n, .operator (.binary op), .number m] _ :=
        .between op (Yard.reads_phrase .number) (Yard.reads_phrase .number)
      rw [evaluate_of_spells hspells hreads, Expr.result_infix ho op hn hm]

/-- At four bits, signed, 9 is -7 and 14 is -2. -/
theorem evaluate_infix_signed :
    evaluate { mode := .integer, width := ⟨4, by decide⟩ } "9 / 14" =
      .ok (.word 3 { mode := .integer, width := ⟨4, by decide⟩ }) :=
  evaluate_infix (o := { mode := .integer, width := ⟨4, by decide⟩ }) rfl rfl .div 9 14

/-- The words have an exclusive or, but the text has no tokens. -/
theorem zero_xor_unread :
    let o : Options := { mode := .integer }
    evaluate o "0 xor 2" = .error (.lexical ⟨.malformedDigits .hex, 1⟩) ∧
      o.wordFormat.binary .bitXor (o.wordFormat.residue 0) (o.wordFormat.residue 2) = .ok 2 :=
  ⟨evaluate_zero_xor { mode := .integer } 2, rfl⟩

end

end Reckon
