import Reckon.Proofs.Balance
import Reckon.Proofs.Binary64.Integers
import Reckon.Proofs.Binary64.Layout
import Reckon.Proofs.Unbounded

/-!
# Both modes agree on safe integers

An expression of integers has a meaning that knows of neither mode. As long as every subexpression
stays among the integers that both kinds of numbers have, the two arithmetics compute just this
meaning: the words because reading a word gives the integer back that it was reduced from, the
binary64 numbers because nothing is rounded. So each side is compared with the integers, node by
node, and never with the other.
-/

namespace Reckon

/-- The integers that are told apart by binary64 numbers and by the signed words of a width. -/
def Safe (width : Nat) (x : Int) : Prop :=
  x.natAbs ≤ Binary64.maxSafeInteger ∧ -2 ^ (width - 1) ≤ x ∧ x < 2 ^ (width - 1)
deriving Decidable

/-- The integer that a tree denotes, if it and the integers of all subtrees are safe. Trees with
other nodes than these denote none, and neither do remainders for a zero divisor. -/
inductive Expr.SafelyDenotes (width : Nat) : Expr → Int → Prop
  | number {n : Numeral} {x : Nat} : n.fractional = false → n.integer = .ok x → Safe width x →
      SafelyDenotes width (.number n) x
  | minus {e : Expr} {x : Int} : SafelyDenotes width e x → Safe width (-x) →
      SafelyDenotes width (.unary .minus e) (-x)
  | plus {e : Expr} {x : Int} : SafelyDenotes width e x → SafelyDenotes width (.unary .plus e) x
  | abs {e : Expr} {x : Int} : SafelyDenotes width e x → Safe width |x| →
      SafelyDenotes width (.call "abs" [e]) |x|
  | add {l r : Expr} {x y : Int} : SafelyDenotes width l x → SafelyDenotes width r y →
      Safe width (x + y) → SafelyDenotes width (.binary .add l r) (x + y)
  | sub {l r : Expr} {x y : Int} : SafelyDenotes width l x → SafelyDenotes width r y →
      Safe width (x - y) → SafelyDenotes width (.binary .sub l r) (x - y)
  | mul {l r : Expr} {x y : Int} : SafelyDenotes width l x → SafelyDenotes width r y →
      Safe width (x * y) → SafelyDenotes width (.binary .mul l r) (x * y)
  | mod {l r : Expr} {x y : Int} : SafelyDenotes width l x → SafelyDenotes width r y → y ≠ 0 →
      Safe width (x.tmod y) → SafelyDenotes width (.binary .mod l r) (x.tmod y)

namespace Expr

variable {width : Nat} {e : Expr} {x : Int}

theorem SafelyDenotes.safe (h : e.SafelyDenotes width x) : Safe width x := by
  induction h with
  | plus _ ih => exact ih
  | _ => assumption

end Expr

/-! ## Words

The words have nothing of their own to be proved. The machine on readings has the operations of the
meaning, with a wrap after each, and a wrapped integer leaves the same residue as the integer
(`residue_wrap`). So only the operands have to be in range, for the machine on readings to start
from them; that the answer is in range is needed once, where the last word is read. -/

namespace Word.Format

variable {f : Format} {x y z : Int}

theorem inRange_of_safe (hs : f.signed = true) (h : Safe f.width x) : f.InRange x := by
  rw [InRange, if_pos hs]
  exact h.2

/-- Where the exact operation has an answer, the word of the answer is computed. -/
theorem binary_of_exact (hw : 0 < f.width) {op : BinaryOp} (hx : f.InRange x) (hy : f.InRange y)
    (h : f.exactBinary op x y = .ok z) :
    f.binary op (f.residue x) (f.residue y) = .ok (f.residue z) := by
  have hagree := agree_binary hw op ⟨rfl, hx⟩ ⟨rfl, hy⟩
  rw [h] at hagree
  generalize f.binary op (f.residue x) (f.residue y) = r at hagree ⊢
  cases hagree with
  | ok hreads => rw [hreads.1, residue_wrap]

theorem unary_residue (hw : 0 < f.width) (op : UnaryOp) (hx : f.InRange x) :
    f.unary op (f.residue x) = f.residue (exactUnary op x) := by
  rw [(reads_unary hw op ⟨rfl, hx⟩).1, residue_wrap]

theorem abs_residue (hw : 0 < f.width) (hx : f.InRange x) :
    f.abs (f.residue x) = f.residue |x| := by
  cases agree_abs hw (f := f) ⟨rfl, hx⟩ with
  | ok hreads => rw [hreads.1, residue_wrap]

end Word.Format

namespace Expr

section Words

variable {f : Word.Format} {e : Expr} {x : Int}

theorem HasWord.abs (h : HasWord f e x) (hword : f.abs (f.residue x) = f.residue |x|) :
    HasWord f (.call "abs" [e]) |x| := by
  unfold HasWord at h ⊢
  rw [evaluate, evaluateAll, evaluateAll, h]
  show Except.ok (f.abs (f.residue x), none) = _
  rw [hword]

theorem SafelyDenotes.hasWord (hw : 0 < f.width) (hs : f.signed = true)
    (h : e.SafelyDenotes f.width x) : HasWord f e x := by
  have hrange {e : Expr} {x : Int} (h : e.SafelyDenotes f.width x) : f.InRange x :=
    Word.Format.inRange_of_safe hs h.safe
  induction h with
  | number hfrac hint _ => exact Denotes.hasWord (.number hfrac hint)
  | minus he _ ih => exact ih.unary (Word.Format.unary_residue hw .minus (hrange he))
  | plus he ih => exact ih.unary (Word.Format.unary_residue hw .plus (hrange he))
  | abs he _ ih => exact ih.abs (Word.Format.abs_residue hw (hrange he))
  | add hl hr _ ihl ihr =>
      exact ihl.binary ihr (Word.Format.binary_of_exact hw (hrange hl) (hrange hr) rfl)
  | sub hl hr _ ihl ihr =>
      exact ihl.binary ihr (Word.Format.binary_of_exact hw (hrange hl) (hrange hr) rfl)
  | mul hl hr _ ihl ihr =>
      exact ihl.binary ihr (Word.Format.binary_of_exact hw (hrange hl) (hrange hr) rfl)
  | mod hl hr hy _ ihl ihr =>
      exact ihl.binary ihr (Word.Format.binary_of_exact hw (hrange hl) (hrange hr) (if_neg hy))

end Words

end Expr

theorem Numeral.value?_of_integer {n : Numeral} {x : Nat} (h : n.integer = .ok x) :
    n.radix.value? n.text.toList = some x ∧ n.text.toList ≠ [] := by
  unfold integer at h
  split at h
  · cases h
  · next value hvalue =>
      split at h
      · cases h
      · next hempty =>
          cases h
          exact ⟨hvalue, by simpa using hempty⟩

/-- Digits that a person has written are read as the number nearest to what they denote. -/
theorem Binary64.ofWritten?_of_value? {cs : List Char} {x : Nat} (hne : cs ≠ [])
    (h : Radix.dec.value? cs = some x) : ofWritten? cs = some (ofInt x) := by
  rw [ofWritten?_of_writes (Layout.writes_digits hne h), ofInt, Int.cast_natCast]

/-- An integral numeral is read exactly, as a decimal or by its radix. -/
theorem Arithmetic.floatNumber_of_integer {n : Numeral} {x : Nat} (hfrac : n.fractional = false)
    (hint : n.integer = .ok x) (hx : x ≤ Binary64.maxSafeInteger) :
    ∃ v : Binary64, floatNumber n = .ok (v, none) ∧ v.IsInteger x := by
  have hofInt : (Binary64.ofInt x).IsInteger x := Binary64.isInteger_ofInt hx
  refine ⟨Binary64.ofInt x, ?_, hofInt⟩
  unfold floatNumber
  split
  · next hdecimal =>
      have hdecimal : n.radix = .dec := by
        simp only [readAsDecimal, hfrac, Bool.false_or, Bool.and_eq_true, beq_iff_eq] at hdecimal
        exact hdecimal.1
      obtain ⟨hvalue, hne⟩ := n.value?_of_integer hint
      rw [hdecimal] at hvalue
      rw [Binary64.ofWritten?_of_value? hne hvalue]
      show (Binary64.Guarded.check "literal" (Binary64.ofInt x) >>= _) = _
      rw [Binary64.Guarded.check_of_isInteger hofInt]
      rfl
  · obtain ⟨v, hv, -⟩ := Binary64.eq_finite_of_toRat? hofInt
    rw [hint]
    dsimp only [bind, Except.bind]
    rw [show Binary64.ofInt (x : Nat) = _ from hv]
    dsimp only
    rw [if_neg (by omega)]
    rfl

namespace Expr

variable {width : Nat} {e l r : Expr} {x y z : Int}

/-- The tree evaluates to a binary64 number that is the integer, without a remark. -/
def HasFloat (e : Expr) (x : Int) : Prop :=
  ∃ v : Binary64, e.evaluate Arithmetic.floats = .ok (v, none) ∧ v.IsInteger x

theorem HasFloat.unary {op : UnaryOp} (h : HasFloat e x) (hop : op.integerOnly = false)
    (hexact : ∀ a : Binary64, a.IsInteger x →
      ∃ c, Binary64.Guarded.unary op a = .ok c ∧ c.IsInteger z) : HasFloat (.unary op e) z := by
  obtain ⟨a, ha, hx⟩ := h
  obtain ⟨c, hc, hz⟩ := hexact a hx
  refine ⟨c, ?_, hz⟩
  have hunary : Arithmetic.floats.unary op = .ok (Binary64.Guarded.unary op) := by
    simp [Arithmetic.floats, hop]
  rw [evaluate, ha]
  show (Arithmetic.floats.unary op >>= _) = _
  rw [hunary]
  show (Binary64.Guarded.unary op a >>= _) = _
  rw [hc]
  rfl

theorem HasFloat.binary {op : BinaryOp} (hl : HasFloat l x) (hr : HasFloat r y)
    (hop : op.integerOnly = false)
    (hexact : ∀ a b : Binary64, a.IsInteger x → b.IsInteger y →
      ∃ c, Binary64.Guarded.binary op a b = .ok c ∧ c.IsInteger z) :
    HasFloat (.binary op l r) z := by
  obtain ⟨a, ha, hx⟩ := hl
  obtain ⟨b, hb, hy⟩ := hr
  obtain ⟨c, hc, hz⟩ := hexact a b hx hy
  refine ⟨c, ?_, hz⟩
  have hbinary : Arithmetic.floats.binary op = .ok (Binary64.Guarded.binary op) := by
    simp [Arithmetic.floats, hop]
  rw [evaluate, ha, hb]
  show (Arithmetic.floats.binary op >>= _) = _
  rw [hbinary]
  show (Binary64.Guarded.binary op a b >>= _) = _
  rw [hc]
  rfl

theorem HasFloat.abs (h : HasFloat e x) : HasFloat (.call "abs" [e]) |x| := by
  obtain ⟨a, ha, hx⟩ := h
  refine ⟨a.abs, ?_, hx.abs⟩
  rw [evaluate, evaluateAll, evaluateAll, ha]
  show (Binary64.Guarded.check "abs" a.abs >>= _) = _
  rw [Binary64.Guarded.check_of_isInteger hx.abs]
  rfl

theorem SafelyDenotes.hasFloat (h : e.SafelyDenotes width x) : HasFloat e x := by
  induction h with
  | number hfrac hint hsafe => exact Arithmetic.floatNumber_of_integer hfrac hint hsafe.1
  | minus _ _ ih => exact ih.unary rfl fun a ha => ⟨a.neg, rfl, ha.neg⟩
  | plus _ ih => exact ih.unary rfl fun a ha => ⟨a, rfl, ha⟩
  | abs _ _ ih => exact ih.abs
  | add _ _ hsafe ihl ihr =>
      exact ihl.binary ihr rfl fun a b ha hb =>
        ⟨a.add b, Binary64.Guarded.check_of_isInteger (ha.add hb hsafe.1) _, ha.add hb hsafe.1⟩
  | sub _ _ hsafe ihl ihr =>
      exact ihl.binary ihr rfl fun a b ha hb =>
        ⟨a.sub b, Binary64.Guarded.check_of_isInteger (ha.sub hb hsafe.1) _, ha.sub hb hsafe.1⟩
  | mul _ _ hsafe ihl ihr =>
      exact ihl.binary ihr rfl fun a b ha hb =>
        ⟨a.mul b, Binary64.Guarded.check_of_isInteger (ha.mul hb hsafe.1) _, ha.mul hb hsafe.1⟩
  | mod _ _ hy hsafe ihl ihr =>
      exact ihl.binary ihr rfl fun a b ha hb =>
        ⟨a.rem b, Binary64.Guarded.mod_of_isInteger ha hb hy hsafe.1, ha.rem hb hy hsafe.1⟩

end Expr

/-- Where every subexpression denotes a safe integer, both modes evaluate: float mode to the
binary64 number that is the integer, without a remark, and integer mode to the word that is read as
it. -/
theorem modes_agree {o : Options} (hsigned : o.signed = true) {e : Expr} {x : Int}
    (h : e.SafelyDenotes o.width.val x) :
    ∃ v : Binary64, v.IsInteger x ∧
      Word.reading o.width.val (x % 2 ^ o.width.val) = x ∧
      e.program.evaluate { o with mode := .float } = .ok (.float v none) ∧
      e.program.evaluate { o with mode := .integer } =
        .ok (.word (x % 2 ^ o.width.val) { o with mode := .integer }) ∧
      ∀ text tokens, scan o text = .ok tokens → group tokens = .ok e.program →
        evaluate { o with mode := .float } text = .ok (.float v none) ∧
        evaluate { o with mode := .integer } text =
          .ok (.word (x % 2 ^ o.width.val) { o with mode := .integer }) := by
  obtain ⟨v, hfloat, hv⟩ := h.hasFloat
  have hword : e.HasWord o.wordFormat x := h.hasWord o.width.property hsigned
  have hresidue : Word.residue o.width.val x = x % 2 ^ o.width.val := by
    rw [Word.residue, Word.modulus_eq]
  have hfloatResult : e.result { o with mode := .float } = .ok (.float v none) := by
    show (e.evaluate Arithmetic.floats).map _ = _
    rw [hfloat]
    rfl
  have hwordResult : e.result { o with mode := .integer } =
      .ok (.word (x % 2 ^ o.width.val) { o with mode := .integer }) := by
    show (e.evaluate (Arithmetic.words o.wordFormat)).map _ = _
    rw [hword, ← hresidue]
    rfl
  refine ⟨v, hv, ?_, ?_, ?_, fun text tokens hscan hgroup => ⟨?_, ?_⟩⟩
  · rw [← hresidue]
    exact Word.Format.reading_residue (f := o.wordFormat) o.width.property hsigned
      (Word.Format.inRange_of_safe hsigned h.safe)
  · rw [Expr.evaluate_program, hfloatResult]
  · rw [Expr.evaluate_program, hwordResult]
  · rw [evaluate_of_group (o := { o with mode := .float }) hscan hgroup, hfloatResult]
    rfl
  · rw [evaluate_of_group (o := { o with mode := .integer }) hscan hgroup, hwordResult]
    rfl

/-- With hexadecimal input, `-16` leaves the remainder `-1` for the divisor `|3 - 8|`. -/
theorem modes_agree_remainder : ∃ v : Binary64, v.IsInteger (-1) ∧
    evaluate { inputBase := .fixed .hex, mode := .float, width := ⟨8, by decide⟩ }
      "-10 % abs(0b11 - 8)" = .ok (.float v none) ∧
    evaluate { inputBase := .fixed .hex, mode := .integer, width := ⟨8, by decide⟩ }
      "-10 % abs(0b11 - 8)" =
        .ok (.word 255
          { inputBase := .fixed .hex, mode := .integer, width := ⟨8, by decide⟩ }) := by
  let dividend : Numeral := { text := "10", radix := .hex }
  let low : Numeral := { text := "11", radix := .bin, marked := true }
  let high : Numeral := { text := "8", radix := .hex }
  have hdividend : dividend.integer = .ok 16 := eq_ok_of_toOption (by decide +kernel)
  have hlow : low.integer = .ok 3 := eq_ok_of_toOption (by decide +kernel)
  have hhigh : high.integer = .ok 8 := eq_ok_of_toOption (by decide +kernel)
  have habs : |((3 : Nat) : Int) - (8 : Nat)| = 5 := by decide
  have hdivisor : Expr.SafelyDenotes 8
      (.call "abs" [.binary .sub (.number low) (.number high)]) 5 := by
    rw [← habs]
    exact .abs (.sub (.number rfl hlow (by decide)) (.number rfl hhigh (by decide)) (by decide))
      (by decide)
  have hdenotes : Expr.SafelyDenotes 8 (.binary .mod (.unary .minus (.number dividend)) _) (-1) :=
    .mod (.minus (.number rfl hdividend (by decide)) (by decide)) hdivisor (by decide) (by decide)
  obtain ⟨v, hv, -, -, -, htext⟩ := modes_agree
    (o := { inputBase := .fixed .hex, width := ⟨8, by decide⟩ }) rfl hdenotes
  have hprogram : (scan { inputBase := .fixed .hex, width := ⟨8, by decide⟩ }
      "-10 % abs(0b11 - 8)" >>= group) = .ok _ := eq_ok_of_toOption (show _ = some
        [.number dividend, .operator (.unary .minus), .number low, .number high,
          .operator (.binary .sub), .call "abs" 1, .operator (.binary .mod)] by decide +kernel)
  obtain ⟨tokens, hscan, hgroup⟩ := bind_eq_ok hprogram
  obtain ⟨hfloat, hword⟩ := htext _ _ hscan hgroup
  exact ⟨v, hv, hfloat, hword⟩

end Reckon
