import Reckon.Calculator
import Reckon.Proofs.Machine
import Reckon.Proofs.Word.Bits

/-!
# Words compute on their readings

A word is kept as a residue, and some operations reconstruct the signed reading of their operands
while others do not. The reference here knows nothing of that. Its values are the readings
themselves, integers from the range of the format; it carries each operation out exactly and wraps
the answer into the range. `Reads` ties the two together: the residue of a reading is its word.

Every operation is checked once on related operands. Whether the word operation reconstructs signs
makes no difference for those that are polynomials or act bit by bit; the others read their
operands, and reading the word of an integer in range gives that integer back. In an unsigned format
reading is not needed, since residue and reading are one.
-/

namespace Reckon

namespace Word.Format

/-- The range of readings. -/
def InRange (f : Format) (x : Int) : Prop :=
  if f.signed then -2 ^ (f.width - 1) ≤ x ∧ x < 2 ^ (f.width - 1) else 0 ≤ x ∧ x < 2 ^ f.width

/-- The integer of the range that an integer wraps to. -/
def wrap (f : Format) (x : Int) : Int :=
  if f.signed then x.bmod (2 ^ f.width) else x % 2 ^ f.width

/-- The number of places that a shift by `y` moves. -/
def places (f : Format) (y : Int) : Nat :=
  (y % 2 ^ f.width % 64).toNat

/-- A division, which has no answer where the divisor is zero. -/
def exactDivision (operation : String) (divided : Int → Int → Int) (x y : Int) :
    Except EvalError Int :=
  if y = 0 then .error (.divisionByZero operation) else .ok (divided x y)

def exactBinary (f : Format) : BinaryOp → Int → Int → Except EvalError Int
  | .add, x, y => .ok (x + y)
  | .sub, x, y => .ok (x - y)
  | .mul, x, y => .ok (x * y)
  | .div, x, y => exactDivision "Division" Int.tdiv x y
  | .mod, x, y => exactDivision "Modulo" Int.tmod x y
  | .caret, x, y | .doubleStar, x, y =>
    if y < 0 then .error .negativeExponent else .ok (x ^ y.toNat)
  | .shiftLeft, x, y => .ok (x * 2 ^ f.places y)
  | .shiftRight, x, y => .ok (x.fdiv (2 ^ f.places y))
  | .bitAnd, x, y => .ok (Int.land x y)
  | .bitXor, x, y => .ok (Int.xor x y)
  | .bitOr, x, y => .ok (Int.lor x y)

def exactUnary : UnaryOp → Int → Int
  | .minus, x => -x
  | .plus, x => x
  | .complement, x => -x - 1

/-- Of two readings the one whose residue is less, the first one if both are the same. -/
def least (f : Format) (x y : Int) : Int :=
  if y % 2 ^ f.width < x % 2 ^ f.width then y else x

/-- Of two readings the one whose residue is greater, the first one if both are the same. -/
def greatest (f : Format) (x y : Int) : Int :=
  if x % 2 ^ f.width < y % 2 ^ f.width then y else x

def exactCall (f : Format) : Function → List Int → Except EvalError Int
  | .abs, [x] => .ok |x|
  | .xor, [x, y] => .ok (Int.xor x y)
  | .min, x :: xs => .ok (xs.foldl f.least x)
  | .max, x :: xs => .ok (xs.foldl f.greatest x)
  | fn, xs => .error (.arity fn xs.length)

end Word.Format

/-- Arithmetic on readings: each operation is exact and its answer is wrapped. -/
def Arithmetic.readings (f : Word.Format) : Arithmetic Int where
  number n :=
    if n.fractional then .error (.fractionalNumeral n)
    else n.integer.map fun value => (f.wrap value, none)
  constant name :=
    match Constant.ofName? name with
    | some c => .error (.floatOnlyConstant c.name)
    | none => .error (.unknownIdentifier name)
  function name argc :=
    match Function.ofName? name with
    | none => .error (.unknownFunction name)
    | some fn =>
      if !fn.onWords then .error (.notOnWords fn)
      else if !fn.accepts argc then .error (.arity fn argc)
      else .ok fun xs => (f.exactCall fn xs).map f.wrap
  unary op := .ok fun x => .ok (f.wrap (Word.Format.exactUnary op x))
  binary op := .ok fun x y => (f.exactBinary op x y).map f.wrap

namespace Word.Format

variable {f : Format}

theorem residue_wrap (f : Format) (x : Int) : f.residue (f.wrap x) = f.residue x := by
  show Word.residue f.width (if f.signed then _ else _) = _
  split
  · exact Int.bmod_emod
  · rw [← modulus_eq]
    exact residue_residue f.width x

theorem inRange_wrap (hw : 0 < f.width) (x : Int) : f.InRange (f.wrap x) := by
  have hpos := modulus_pos f.width
  have hdouble := modulus_eq_double hw
  unfold InRange wrap
  split
  · have hlow := Int.le_bmod (x := x) hpos
    have hhigh := Int.bmod_lt (x := x) hpos
    rw [← modulus_eq]
    show _ ≤ x.bmod (modulus f.width) ∧ x.bmod (modulus f.width) < _
    omega
  · rw [← modulus_eq]
    exact ⟨residue_nonneg f.width x, residue_lt f.width x⟩

theorem reading_residue (hw : 0 < f.width) (hs : f.signed = true) {x : Int} (hx : f.InRange x) :
    f.reading (f.residue x) = x := by
  rw [InRange, if_pos hs, ← modulus_eq] at hx
  exact Word.reading_residue hw hx.1 hx.2

theorem residue_eq_self (hs : f.signed = false) {x : Int} (hx : f.InRange x) :
    f.residue x = x := by
  rw [InRange, if_neg (by simp [hs]), ← modulus_eq] at hx
  exact Word.residue_eq_self hx.1 hx.2

/-- Integers of the range that are not negative are their own words. -/
theorem residue_eq_self_of_nonneg (hw : 0 < f.width) {x : Int} (hx : f.InRange x) (h0 : 0 ≤ x) :
    f.residue x = x := by
  have hdouble := modulus_eq_double hw
  by_cases hs : f.signed = true
  · rw [InRange, if_pos hs, ← modulus_eq] at hx
    exact Word.residue_eq_self h0 (by omega)
  · exact residue_eq_self (by simpa using hs) hx

/-- The word `a` is read as `x`. -/
def Reads (f : Format) (a x : Int) : Prop :=
  a = f.residue x ∧ f.InRange x

theorem reads_wrap (hw : 0 < f.width) {a x : Int} (h : a = f.residue x) :
    f.Reads a (f.wrap x) :=
  ⟨h.trans (residue_wrap f x).symm, inRange_wrap hw x⟩

theorem agree_wrap (hw : 0 < f.width) {a x : Int} (h : a = f.residue x) :
    Agree f.Reads (.ok a) ((Except.ok x : Except EvalError Int).map f.wrap) :=
  .ok (reads_wrap hw h)

theorem inRange_zero (f : Format) : f.InRange 0 := by
  have hm := modulus_pos f.width
  have hh := modulus_pos (f.width - 1)
  unfold InRange
  split
  · rw [← modulus_eq]
    omega
  · rw [← modulus_eq]
    omega

/-- No two readings have the same word. -/
theorem inRange_unique (hw : 0 < f.width) {x y : Int} (hx : f.InRange x) (hy : f.InRange y)
    (h : f.residue x = f.residue y) : x = y := by
  by_cases hs : f.signed = true
  · rw [← reading_residue hw hs hx, h, reading_residue hw hs hy]
  · have hs : f.signed = false := by simpa using hs
    rw [← residue_eq_self hs hx, h, residue_eq_self hs hy]

theorem Reads.eq_zero_iff (hw : 0 < f.width) {b y : Int} (h : f.Reads b y) : b = 0 ↔ y = 0 := by
  have h0 : f.residue 0 = 0 := Int.zero_emod _
  rw [h.1]
  constructor
  · intro hb
    exact inRange_unique hw h.2 (inRange_zero f) (hb.trans h0.symm)
  · rintro rfl
    exact h0

/-- In an unsigned format a word is its own reading. -/
theorem Reads.unsigned (hs : f.signed = false) {a x : Int} (h : f.Reads a x) :
    a = x ∧ 0 ≤ x ∧ x < modulus f.width := by
  have hx := h.2
  rw [InRange, if_neg (by simp [hs]), ← modulus_eq] at hx
  exact ⟨h.1.trans (residue_eq_self hs h.2), hx⟩

/-! ## Operations that read their operands

A division is written twice in the machine, once for readings and once for naturals, and only the
first is wrapped. The second needs no wrap for a reason of its own: on naturals the answer does not
exceed the dividend, and the dividend is a word. This is all that a quotient and a remainder have to
show (`agree_onDivisor`), for on naturals rounding down is rounding toward zero. -/

/-- A division agrees with the exact one if on naturals its unsigned form is the exact one, and the
answer does not exceed the dividend. -/
theorem agree_onDivisor (hw : 0 < f.width) {a b x y : Int} (ha : f.Reads a x) (hb : f.Reads b y)
    (operation : String) {exact unsigned : Int → Int → Int}
    (hexact : ∀ m n : Int, 0 ≤ m → 0 < n →
      unsigned m n = exact m n ∧ 0 ≤ exact m n ∧ exact m n ≤ m) :
    Agree f.Reads (f.onDivisor operation exact unsigned a b)
      ((exactDivision operation exact x y).map f.wrap) := by
  unfold onDivisor exactDivision
  by_cases hy : y = 0
  · rw [if_pos hy, if_pos ((hb.eq_zero_iff hw).mpr hy)]
    exact .error _
  · rw [if_neg hy, if_neg (mt (hb.eq_zero_iff hw).mp hy)]
    by_cases hs : f.signed = true
    · rw [if_pos hs, ha.1, hb.1, reading_residue hw hs ha.2, reading_residue hw hs hb.2, if_neg hy]
      exact agree_wrap hw rfl
    · have hs : f.signed = false := by simpa using hs
      obtain ⟨rfl, ha0, halt⟩ := ha.unsigned hs
      obtain ⟨rfl, hb0, -⟩ := hb.unsigned hs
      obtain ⟨hu, he0, hele⟩ := hexact a b ha0 (by omega)
      rw [if_neg (by simp [hs]), hu]
      exact agree_wrap hw (Word.residue_eq_self he0 (by omega)).symm

/-- On naturals rounding toward zero is rounding down, and the quotient is at most the dividend. -/
theorem tdiv_of_nonneg (m n : Int) (hm : 0 ≤ m) (hn : 0 < n) :
    m.fdiv n = m.tdiv n ∧ 0 ≤ m.tdiv n ∧ m.tdiv n ≤ m := by
  refine ⟨Int.fdiv_eq_tdiv_of_nonneg hm (by omega), Int.tdiv_nonneg hm (by omega), ?_⟩
  rw [Int.tdiv_eq_ediv_of_nonneg hm]
  exact Int.ediv_le_self n hm

theorem tmod_of_nonneg (m n : Int) (hm : 0 ≤ m) (hn : 0 < n) :
    m.fmod n = m.tmod n ∧ 0 ≤ m.tmod n ∧ m.tmod n ≤ m := by
  refine ⟨Int.fmod_eq_tmod_of_nonneg hm (by omega), Int.tmod_nonneg n hm, ?_⟩
  rw [Int.tmod_eq_emod_of_nonneg hm]
  have hsplit := Int.emod_add_mul_ediv m n
  have hquot := Int.mul_nonneg (Int.le_of_lt hn) (Int.ediv_nonneg hm (Int.le_of_lt hn))
  omega

theorem agree_div (hw : 0 < f.width) {a b x y : Int} (ha : f.Reads a x) (hb : f.Reads b y) :
    Agree f.Reads (f.div a b) ((f.exactBinary .div x y).map f.wrap) :=
  agree_onDivisor hw ha hb "Division" tdiv_of_nonneg

theorem agree_mod (hw : 0 < f.width) {a b x y : Int} (ha : f.Reads a x) (hb : f.Reads b y) :
    Agree f.Reads (f.mod a b) ((f.exactBinary .mod x y).map f.wrap) :=
  agree_onDivisor hw ha hb "Modulo" tmod_of_nonneg

theorem agree_pow (hw : 0 < f.width) {a b x y : Int} (ha : f.Reads a x) (hb : f.Reads b y) :
    Agree f.Reads (f.pow a b) ((f.exactBinary .caret x y).map f.wrap) := by
  show Agree f.Reads (f.pow a b) ((if y < 0 then _ else _ : Except EvalError Int).map f.wrap)
  have htest : (f.signed && decide (f.reading b < 0)) = decide (y < 0) := by
    by_cases hs : f.signed = true
    · rw [hs, hb.1, reading_residue hw hs hb.2, Bool.true_and]
    · have hs : f.signed = false := by simpa using hs
      obtain ⟨-, hb0, -⟩ := hb.unsigned hs
      simp [hs, hb0]
  unfold pow
  rw [htest]
  by_cases hneg : y < 0
  · rw [if_pos (decide_eq_true hneg), if_pos hneg]
    exact .error _
  · have hby : b = y := hb.1.trans (residue_eq_self_of_nonneg hw hb.2 (by omega))
    rw [if_neg (by simpa using hneg), if_neg hneg, ha.1, hby]
    refine agree_wrap hw ?_
    show Word.residue _ (powerLoop _ (Word.residue _ (Word.residue _ x)).toNat 1 _) = _
    rw [Word.residue_residue, Word.residue_powerLoop]
    rfl

theorem Reads.shiftCount {b y : Int} (hb : f.Reads b y) : shiftCount b = f.places y := by
  rw [hb.1, places, ← modulus_eq]
  rfl

theorem agree_shiftLeft (hw : 0 < f.width) {a b x y : Int} (ha : f.Reads a x)
    (hb : f.Reads b y) :
    Agree f.Reads (.ok (f.shiftLeft a b)) ((f.exactBinary .shiftLeft x y).map f.wrap) := by
  refine agree_wrap hw ?_
  rw [shiftLeft, hb.shiftCount, ha.1, modulus_eq]
  exact Word.residue_mul_left f.width x _

theorem agree_shiftRight (hw : 0 < f.width) {a b x y : Int} (ha : f.Reads a x)
    (hb : f.Reads b y) :
    Agree f.Reads (.ok (f.shiftRight a b)) ((f.exactBinary .shiftRight x y).map f.wrap) := by
  have hpos : (0 : Int) ≤ 2 ^ f.places y := by rw [← modulus_eq]; omega
  refine agree_wrap hw ?_
  rw [shiftRight, hb.shiftCount, modulus_eq, Int.fdiv_eq_ediv_of_nonneg x hpos]
  by_cases hs : f.signed = true
  · rw [if_pos hs, ha.1, reading_residue hw hs ha.2]
  · have hs : f.signed = false := by simpa using hs
    obtain ⟨rfl, ha0, halt⟩ := ha.unsigned hs
    have hle := Int.ediv_le_self (2 ^ f.places y) ha0
    rw [if_neg (by simp [hs])]
    exact (Word.residue_eq_self (Int.ediv_nonneg ha0 hpos) (by omega)).symm

theorem agree_binary (hw : 0 < f.width) (op : BinaryOp) {a b x y : Int} (ha : f.Reads a x)
    (hb : f.Reads b y) :
    Agree f.Reads (f.binary op a b) ((f.exactBinary op x y).map f.wrap) := by
  cases op with
  | div => exact agree_div hw ha hb
  | mod => exact agree_mod hw ha hb
  | caret | doubleStar => exact agree_pow hw ha hb
  | shiftLeft => exact agree_shiftLeft hw ha hb
  | shiftRight => exact agree_shiftRight hw ha hb
  | add => exact agree_wrap hw (by rw [add, ha.1, hb.1]; exact residue_add _ x y)
  | sub => exact agree_wrap hw (by rw [sub, ha.1, hb.1]; exact residue_sub _ x y)
  | mul => exact agree_wrap hw (by rw [mul, ha.1, hb.1]; exact residue_mul _ x y)
  | bitAnd => exact agree_wrap hw (by rw [bitAnd, ha.1, hb.1]; exact residue_bitAnd _ x y)
  | bitXor => exact agree_wrap hw (by rw [bitXor, ha.1, hb.1]; exact residue_bitXor _ x y)
  | bitOr => exact agree_wrap hw (by rw [bitOr, ha.1, hb.1]; exact residue_bitOr _ x y)

theorem reads_unary (hw : 0 < f.width) (op : UnaryOp) {a x : Int} (ha : f.Reads a x) :
    f.Reads (f.unary op a) (f.wrap (exactUnary op x)) := by
  refine reads_wrap hw ?_
  cases op with
  | minus =>
      show f.residue (-(f.reading a)) = f.residue (-x)
      refine residue_neg ?_
      rw [ha.1]
      exact (residue_reading f.width _).trans (residue_residue f.width x)
  | plus =>
      show f.residue a = f.residue x
      rw [ha.1]
      exact residue_residue f.width x
  | complement =>
      show f.residue (Word.complement a) = f.residue (-x - 1)
      rw [ha.1]
      exact residue_complement f.width x

/-! ## Functions

The order of words is not that of their readings: as a word `-1` is the greatest of all. So `min`
and `max` do not agree with those of integers, and the reference has to compare residues (`least`,
`greatest`). What they choose is one of the readings all the same, and the wrap that follows does
nothing to it. -/

theorem Reads.eq_emod {a x : Int} (ha : f.Reads a x) : a = x % 2 ^ f.width := by
  rw [ha.1, ← modulus_eq]
  rfl

/-- Choosing among words is choosing among readings by their residues. -/
theorem reads_foldl {choose choose' : Int → Int → Int}
    (hchoose : ∀ {a b x y : Int}, f.Reads a x → f.Reads b y → f.Reads (choose a b) (choose' x y))
    {as xs : List Int} (h : List.Forall₂ f.Reads as xs) :
    ∀ {a x : Int}, f.Reads a x → f.Reads (as.foldl choose a) (xs.foldl choose' x) := by
  induction h with
  | nil => exact fun ha => ha
  | cons hb _ ih => exact fun ha => ih (hchoose ha hb)

theorem reads_min {a b x y : Int} (ha : f.Reads a x) (hb : f.Reads b y) :
    f.Reads (min a b) (f.least x y) := by
  rw [least, ← ha.eq_emod, ← hb.eq_emod]
  by_cases h : b < a
  · rw [if_pos h, min_eq_right (Int.le_of_lt h)]
    exact hb
  · rw [if_neg h, min_eq_left (by omega)]
    exact ha

theorem reads_max {a b x y : Int} (ha : f.Reads a x) (hb : f.Reads b y) :
    f.Reads (max a b) (f.greatest x y) := by
  rw [greatest, ← ha.eq_emod, ← hb.eq_emod]
  by_cases h : a < b
  · rw [if_pos h, max_eq_right (Int.le_of_lt h)]
    exact hb
  · rw [if_neg h, max_eq_left (by omega)]
    exact ha

/-- What is chosen is a word, and reducing it again changes nothing. -/
theorem agree_choice (hw : 0 < f.width) {choose choose' : Int → Int → Int}
    (hchoose : ∀ {a b x y : Int}, f.Reads a x → f.Reads b y → f.Reads (choose a b) (choose' x y))
    {as xs : List Int} (h : List.Forall₂ f.Reads as xs) {a x : Int} (ha : f.Reads a x) :
    Agree f.Reads (.ok (f.residue (as.foldl choose a)))
      ((Except.ok (xs.foldl choose' x) : Except EvalError Int).map f.wrap) := by
  have hchosen := reads_foldl hchoose h ha
  refine agree_wrap hw ?_
  rw [hchosen.1]
  exact residue_residue f.width _

theorem agree_abs (hw : 0 < f.width) {a x : Int} (ha : f.Reads a x) :
    Agree f.Reads (.ok (f.abs a)) ((Except.ok |x| : Except EvalError Int).map f.wrap) := by
  refine agree_wrap hw ?_
  rw [abs]
  by_cases hs : f.signed = true
  · rw [if_pos hs, ha.1, reading_residue hw hs ha.2, Int.abs_eq_natAbs]
  · have hs : f.signed = false := by simpa using hs
    obtain ⟨rfl, ha0, -⟩ := ha.unsigned hs
    rw [if_neg (by simp [hs]), abs_of_nonneg ha0]

/-- Every function agrees on an argument list that it accepts. -/
theorem agree_call (hw : 0 < f.width) {fn : Function} (hfn : fn.onWords = true)
    {as xs : List Int} (hlen : fn.accepts as.length = true) (h : List.Forall₂ f.Reads as xs) :
    Agree f.Reads (f.call fn as) ((f.exactCall fn xs).map f.wrap) := by
  cases fn with
  | abs =>
      match h with
      | .cons ha .nil => exact agree_abs hw ha
      | .nil | .cons _ (.cons _ _) =>
          exact absurd hlen (by simp [Function.accepts, Function.arity?])
  | xor =>
      match h with
      | .cons ha (.cons hb .nil) => exact agree_binary hw .bitXor ha hb
      | .nil | .cons _ .nil | .cons _ (.cons _ (.cons _ _)) =>
          exact absurd hlen (by simp [Function.accepts, Function.arity?])
  | min =>
      match h with
      | .nil => exact absurd hlen (by simp [Function.accepts, Function.arity?])
      | .cons ha hrest => exact agree_choice hw reads_min hrest ha
  | max =>
      match h with
      | .nil => exact absurd hlen (by simp [Function.accepts, Function.arity?])
      | .cons ha hrest => exact agree_choice hw reads_max hrest ha
  | sin | cos | tan | asin | acos | atan | sqrt | floor | ceil | round | log | ln =>
      exact absurd hfn (by decide)

end Word.Format

theorem Arithmetic.words_simulates {f : Word.Format} (hw : 0 < f.width) :
    Arithmetic.Simulates f.Reads (Arithmetic.words f) (Arithmetic.readings f) where
  number n := by
    show Agree _ (if n.fractional then _ else _) (if n.fractional then _ else _)
    split
    · exact .error _
    · cases n.integer with
      | error e => exact .error e
      | ok value => exact .ok ⟨Word.Format.reads_wrap hw rfl, rfl⟩
  constant name := by
    show Agree _ (.error (match Constant.ofName? name with | some c => _ | none => _))
      (match Constant.ofName? name with | some c => _ | none => _)
    cases Constant.ofName? name with
    | none => exact .error _
    | some c => exact .error _
  function name argc := by
    show Agree _ (match Function.ofName? name with | none => _ | some fn => _)
      (match Function.ofName? name with | none => _ | some fn => _)
    cases Function.ofName? name with
    | none => exact .error _
    | some fn =>
        by_cases hfn : fn.onWords = true
        · by_cases haccepts : fn.accepts argc = true
          · simp only [hfn, haccepts, Bool.not_true, Bool.false_eq_true, if_false]
            refine .ok fun as xs hlen h => ?_
            exact Word.Format.agree_call hw hfn (by rw [hlen]; exact haccepts) h
          · simp only [hfn, haccepts, Bool.not_true, Bool.not_false, Bool.false_eq_true, if_false,
              if_true]
            exact .error _
        · simp only [hfn, Bool.not_false, if_true]
          exact .error _
  unary op := .ok fun _ _ h => .ok (Word.Format.reads_unary hw op h)
  binary op := .ok fun _ _ _ _ ha hb => Word.Format.agree_binary hw op ha hb

/-- The two machines end alike, if they end, and words are then residues. -/
theorem Arithmetic.words_evaluate_agree {f : Word.Format} (hw : 0 < f.width) (p : Program) :
    Agree (fun x y => f.Reads x.1 y.1 ∧ x.2 = y.2)
      (Machine.evaluate (Arithmetic.words f) p) (Machine.evaluate (Arithmetic.readings f) p) :=
  (Machine.run_agree (words_simulates hw) p ⟨.nil, rfl⟩).bind fun _ _ => Machine.result_agree

/-- A value of a program is a residue, and reducing it again changes nothing. -/
theorem Arithmetic.residue_words_evaluate {f : Word.Format} (hw : 0 < f.width) {p : Program}
    {x : Int × Option String} (h : Machine.evaluate (Arithmetic.words f) p = .ok x) :
    f.residue x.1 = x.1 := by
  have hagree := words_evaluate_agree hw p
  rw [h] at hagree
  obtain ⟨y, -, hxy, -⟩ := hagree.of_ok
  rw [hxy.1]
  exact Word.residue_residue f.width _

/-- Stacks of words that are read as a stack of readings. -/
theorem Word.Format.forall₂_reads {f : Word.Format} {as xs : List Int}
    (h : List.Forall₂ f.Reads as xs) : as = xs.map f.residue ∧ ∀ x ∈ xs, f.InRange x := by
  induction h with
  | nil => exact ⟨rfl, by intro x hx; cases hx⟩
  | cons ha _ ih =>
      refine ⟨by rw [List.map_cons, ha.1, ih.1], ?_⟩
      intro x hx
      rcases List.mem_cons.mp hx with rfl | hx
      · exact ha.2
      · exact ih.2 x hx

/-- Word arithmetic is exact arithmetic wrapped into the range of readings. After any number of
instructions both machines have failed with the same error, or the stack of words is the stack of
readings reduced to residues; and the result is the residue of the reference's. -/
theorem words_refine_readings (o : Options) (p : Program) :
    (∀ k, Agree
      (fun s t => s.stack = t.stack.map o.wordFormat.residue ∧
        (∀ x ∈ t.stack, o.wordFormat.InRange x) ∧
        ∀ a ∈ s.stack, 0 ≤ a ∧ a < 2 ^ o.width.val)
      (Machine.run (Arithmetic.words o.wordFormat) {} (p.take k))
      (Machine.run (Arithmetic.readings o.wordFormat) {} (p.take k))) ∧
    Program.evaluate { o with mode := .integer } p =
      (Machine.evaluate (Arithmetic.readings o.wordFormat) p).map fun x =>
        .word (o.wordFormat.residue x.1) { o with mode := .integer } := by
  have hw : 0 < o.wordFormat.width := o.width.property
  constructor
  · intro k
    refine (Machine.run_agree (Arithmetic.words_simulates hw) (p.take k) ⟨.nil, rfl⟩).mono ?_
    rintro s t ⟨hstack, -⟩
    obtain ⟨hmap, hrange⟩ := Word.Format.forall₂_reads hstack
    refine ⟨hmap, hrange, ?_⟩
    rw [hmap]
    intro a ha
    obtain ⟨x, -, rfl⟩ := List.mem_map.mp ha
    rw [← Word.modulus_eq]
    exact ⟨Word.residue_nonneg _ x, Word.residue_lt _ x⟩
  · show (Machine.evaluate (Arithmetic.words o.wordFormat) p).map (fun x =>
      Result.word (o.wordFormat.residue x.1) { o with mode := .integer }) = _
    refine (Arithmetic.words_evaluate_agree hw p).map_eq ?_
    rintro x y ⟨hxy, -⟩
    rw [hxy.1]
    exact congrArg (Result.word · _) (Word.residue_residue _ _)

end Reckon
