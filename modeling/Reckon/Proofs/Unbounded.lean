import Reckon.Proofs.TreeValue

/-!
# Wrapping once at the end

Sums, differences, products, the bit operations and the left shift need nothing of their operands
but their class modulo `2 ^ width`. A tree of such operations may therefore be computed over
unbounded integers and reduced once, when all is done: each node of the tree is one of the laws of
residues. What makes the unary minus no exception is that the reading it reconstructs stays in the
class of its word.

The left shift takes its count modulo 64, which a word still tells only if it has six bits. Hence
the condition on shifts in `Denotes`.
-/

namespace Reckon

/-- The integer that a tree denotes when nothing is ever reduced. Trees with other nodes than these
denote none, and trees with shifts only where `shifts` holds. -/
inductive Expr.Denotes (shifts : Prop) : Expr → Int → Prop
  | number {n : Numeral} {x : Nat} :
      n.fractional = false → n.integer = .ok x → Denotes shifts (.number n) x
  | minus {e : Expr} {x : Int} : Denotes shifts e x → Denotes shifts (.unary .minus e) (-x)
  | plus {e : Expr} {x : Int} : Denotes shifts e x → Denotes shifts (.unary .plus e) x
  | complement {e : Expr} {x : Int} :
      Denotes shifts e x → Denotes shifts (.unary .complement e) (-x - 1)
  | add {l r : Expr} {x y : Int} :
      Denotes shifts l x → Denotes shifts r y → Denotes shifts (.binary .add l r) (x + y)
  | sub {l r : Expr} {x y : Int} :
      Denotes shifts l x → Denotes shifts r y → Denotes shifts (.binary .sub l r) (x - y)
  | mul {l r : Expr} {x y : Int} :
      Denotes shifts l x → Denotes shifts r y → Denotes shifts (.binary .mul l r) (x * y)
  | bitAnd {l r : Expr} {x y : Int} :
      Denotes shifts l x → Denotes shifts r y → Denotes shifts (.binary .bitAnd l r) (Int.land x y)
  | bitOr {l r : Expr} {x y : Int} :
      Denotes shifts l x → Denotes shifts r y → Denotes shifts (.binary .bitOr l r) (Int.lor x y)
  | bitXor {l r : Expr} {x y : Int} :
      Denotes shifts l x → Denotes shifts r y → Denotes shifts (.binary .bitXor l r) (Int.xor x y)
  | xorCall {l r : Expr} {x y : Int} :
      Denotes shifts l x → Denotes shifts r y → Denotes shifts (.call "xor" [l, r]) (Int.xor x y)
  | shiftLeft {l r : Expr} {x y : Int} :
      shifts → Denotes shifts l x → Denotes shifts r y →
      Denotes shifts (.binary .shiftLeft l r) (x * 2 ^ (y % 64).toNat)

namespace Expr

variable {f : Word.Format}

/-- The tree evaluates to the word of an integer, without a remark. -/
def HasWord (f : Word.Format) (e : Expr) (x : Int) : Prop :=
  e.evaluate (Arithmetic.words f) = .ok (f.residue x, none)

theorem HasWord.unary {op : UnaryOp} {e : Expr} {x y : Int} (he : HasWord f e x)
    (h : f.unary op (f.residue x) = f.residue y) : HasWord f (.unary op e) y := by
  unfold HasWord at he ⊢
  rw [evaluate, he, ← h]
  rfl

theorem HasWord.binary {op : BinaryOp} {l r : Expr} {x y z : Int} (hl : HasWord f l x)
    (hr : HasWord f r y) (h : f.binary op (f.residue x) (f.residue y) = .ok (f.residue z)) :
    HasWord f (.binary op l r) z := by
  unfold HasWord at hl hr ⊢
  rw [evaluate, hl, hr]
  show (f.binary op (f.residue x) (f.residue y) >>= fun a => .ok (a, none)) = _
  rw [h]
  rfl

theorem HasWord.xorCall {l r : Expr} {x y : Int} (hl : HasWord f l x) (hr : HasWord f r y) :
    HasWord f (.call "xor" [l, r]) (Int.xor x y) := by
  unfold HasWord at hl hr ⊢
  rw [evaluate, evaluateAll, evaluateAll, evaluateAll, hl, hr]
  show Except.ok (f.bitXor (f.residue x) (f.residue y), none) = _
  rw [Word.Format.bitXor]
  exact congrArg (fun a => Except.ok (a, none)) (Word.residue_bitXor f.width x y)

theorem HasWord.shiftLeft {l r : Expr} {x y : Int} (hw : 6 ≤ f.width) (hl : HasWord f l x)
    (hr : HasWord f r y) : HasWord f (.binary .shiftLeft l r) (x * 2 ^ (y % 64).toNat) := by
  refine hl.binary hr (congrArg Except.ok ?_)
  show f.residue (f.residue x * Word.modulus (Word.shiftCount (f.residue y))) = _
  rw [show Word.shiftCount (f.residue y) = Word.shiftCount y from Word.shiftCount_residue hw y,
    Word.modulus_eq]
  exact Word.residue_mul_left f.width x _

/-- Every node keeps to the classes of its operands. -/
theorem Denotes.hasWord {e : Expr} {x : Int} (h : e.Denotes (6 ≤ f.width) x) : HasWord f e x := by
  induction h with
  | @number n x hfrac hint =>
      show (if n.fractional then _ else _) = _
      rw [if_neg (by simp [hfrac]), hint]
      rfl
  | @minus e x _ ih =>
      refine ih.unary (Word.residue_neg ?_)
      exact (Word.residue_reading f.width _).trans (Word.residue_residue f.width x)
  | @plus e x _ ih => exact ih.unary (Word.residue_residue f.width x)
  | @complement e x _ ih => exact ih.unary (Word.residue_complement f.width x)
  | add _ _ ihl ihr => exact ihl.binary ihr (congrArg Except.ok (Word.residue_add _ _ _))
  | sub _ _ ihl ihr => exact ihl.binary ihr (congrArg Except.ok (Word.residue_sub _ _ _))
  | mul _ _ ihl ihr => exact ihl.binary ihr (congrArg Except.ok (Word.residue_mul _ _ _))
  | bitAnd _ _ ihl ihr => exact ihl.binary ihr (congrArg Except.ok (Word.residue_bitAnd _ _ _))
  | bitOr _ _ ihl ihr => exact ihl.binary ihr (congrArg Except.ok (Word.residue_bitOr _ _ _))
  | bitXor _ _ ihl ihr => exact ihl.binary ihr (congrArg Except.ok (Word.residue_bitXor _ _ _))
  | xorCall _ _ ihl ihr => exact ihl.xorCall ihr
  | shiftLeft hw _ _ ihl ihr => exact ihl.shiftLeft hw ihr

/-- The result of a tree is the integer that it denotes, reduced to the width. -/
theorem Denotes.result {o : Options} (ho : o.mode = .integer) {e : Expr} {x : Int}
    (h : e.Denotes (6 ≤ o.width.val) x) : e.result o = .ok (.word (x % 2 ^ o.width.val) o) := by
  have hword : HasWord o.wordFormat e x := Denotes.hasWord h
  rw [Expr.result, ho]
  show (e.evaluate (Arithmetic.words o.wordFormat)).map _ = _
  rw [hword, ← Word.modulus_eq]
  rfl

end Expr

/-- Wrapping at every step is wrapping once at the end, in either signedness; and a narrower width
gives what the wider one gives, reduced once more. -/
theorem evaluate_wraps_once {o : Options} (ho : o.mode = .integer) {e : Expr} {x : Int}
    (h : e.Denotes (6 ≤ o.width.val) x) :
    (∀ signed, e.program.evaluate { o with signed } =
      .ok (.word (x % 2 ^ o.width.val) { o with signed })) ∧
    ∀ width : Width, width.val ≤ o.width.val → e.Denotes (6 ≤ width.val) x →
      ∀ signed, e.program.evaluate { o with width, signed } =
        .ok (.word (x % 2 ^ o.width.val % 2 ^ width.val) { o with width, signed }) := by
  constructor
  · intro signed
    rw [Expr.evaluate_program]
    exact Expr.Denotes.result (o := { o with signed }) ho h
  · intro width hle h' signed
    have hres := Word.residue_residue_of_le hle x
    change x % (Word.modulus o.width.val : Int) % (Word.modulus width.val : Int) =
      x % (Word.modulus width.val : Int) at hres
    rw [Word.modulus_eq, Word.modulus_eq] at hres
    rw [Expr.evaluate_program, hres]
    exact Expr.Denotes.result (o := { o with width, signed }) ho h'

/-- The tree of `-201 << ~60` denotes `-1608`, at eight bits and at six. -/
theorem evaluate_wraps_once_shift :
    Program.evaluate { mode := .integer, width := ⟨8, by decide⟩, signed := false }
        [.number { text := "201" }, .operator (.unary .minus), .number { text := "60" },
          .operator (.unary .complement), .operator (.binary .shiftLeft)] =
      .ok (.word 184 { mode := .integer, width := ⟨8, by decide⟩, signed := false }) ∧
    Program.evaluate { mode := .integer, width := ⟨6, by decide⟩ }
        [.number { text := "201" }, .operator (.unary .minus), .number { text := "60" },
          .operator (.unary .complement), .operator (.binary .shiftLeft)] =
      .ok (.word 56 { mode := .integer, width := ⟨6, by decide⟩ }) := by
  have hleft : Numeral.integer { text := "201" } = .ok 201 := eq_ok_of_toOption (by decide +kernel)
  have hright : Numeral.integer { text := "60" } = .ok 60 := eq_ok_of_toOption (by decide +kernel)
  have hdenotes (width : Nat) (hw : 6 ≤ width) : Expr.Denotes (6 ≤ width)
      (.binary .shiftLeft (.unary .minus (.number { text := "201" }))
        (.unary .complement (.number { text := "60" }))) _ :=
    .shiftLeft hw (.minus (.number rfl hleft)) (.complement (.number rfl hright))
  obtain ⟨hwide, hnarrow⟩ := evaluate_wraps_once
    (o := { mode := .integer, width := ⟨8, by decide⟩ }) rfl (hdenotes 8 (by decide))
  have hsix := hnarrow ⟨6, by decide⟩ (by decide) (hdenotes 6 (by decide)) true
  exact ⟨hwide false, hsix⟩

end Reckon
