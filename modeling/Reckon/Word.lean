import Reckon.EvalError
import Reckon.Text.Grouped

/-!
# Words of a fixed width

A word is kept as its residue: the natural number below `2 ^ width` with the same bits. Its signed
reading is computed where an operation asks for it and never stored. Which operations ask is the
heart of this module: division, remainder, the right shift, the absolute value and the sign test of
an exponent do, in a signed format; the others work on residues and cannot tell.

The operations take any integers. On residues they answer with residues; the unsigned division,
remainder and right shift do not reduce their arguments first, and floor.

For the bitwise operations an integer is an infinite row of bits in two's complement: a natural
number has zeros to the left without end, a negative one has ones. A negative integer `-(n + 1)` is
the complement of `n`, so each operation reduces to one on naturals.
-/

namespace Reckon.Word

/-- The bits of `m` that `n` does not have. -/
def without (m n : Nat) : Nat :=
  m ^^^ (m &&& n)

def bitAnd : Int → Int → Int
  | .ofNat m, .ofNat n => .ofNat (m &&& n)
  | .ofNat m, .negSucc n => .ofNat (without m n)
  | .negSucc m, .ofNat n => .ofNat (without n m)
  | .negSucc m, .negSucc n => .negSucc (m ||| n)

def bitOr : Int → Int → Int
  | .ofNat m, .ofNat n => .ofNat (m ||| n)
  | .ofNat m, .negSucc n => .negSucc (without n m)
  | .negSucc m, .ofNat n => .negSucc (without m n)
  | .negSucc m, .negSucc n => .negSucc (m &&& n)

def bitXor : Int → Int → Int
  | .ofNat m, .ofNat n => .ofNat (m ^^^ n)
  | .ofNat m, .negSucc n => .negSucc (m ^^^ n)
  | .negSucc m, .ofNat n => .negSucc (m ^^^ n)
  | .negSucc m, .negSucc n => .ofNat (m ^^^ n)

/-- Every bit the other way round. -/
def complement (a : Int) : Int :=
  -a - 1

/-- The number of words of a width. -/
def modulus (width : Nat) : Nat :=
  Nat.pow 2 width

/-- The word of all ones. -/
def mask (width : Nat) : Int :=
  modulus width - 1

/-- The residue that an integer is kept as. -/
def residue (width : Nat) (x : Int) : Int :=
  x % modulus width

/-- The two's-complement reading: residues in the upper half stand for negative numbers. -/
def reading (width : Nat) (x : Int) : Int :=
  let r := residue width x
  if modulus (width - 1) ≤ r then r - modulus width else r

theorem modulus_pos (width : Nat) : 0 < modulus width :=
  Nat.pow_pos (by decide)

theorem residue_nonneg (width : Nat) (x : Int) : 0 ≤ residue width x :=
  Int.emod_nonneg _ (by have := modulus_pos width; omega)

theorem residue_lt (width : Nat) (x : Int) : residue width x < modulus width :=
  Int.emod_lt_of_pos _ (by have := modulus_pos width; omega)

theorem residue_residue (width : Nat) (x : Int) :
    residue width (residue width x) = residue width x :=
  Int.emod_emod_of_dvd _ (Int.dvd_refl _)

/-- A reading stands for the word that it reads. -/
theorem residue_reading (width : Nat) (x : Int) :
    residue width (reading width x) = residue width x := by
  unfold reading
  dsimp only
  split
  · show (residue width x - modulus width) % _ = _
    rw [Int.sub_emod_right]
    exact residue_residue width x
  · exact residue_residue width x

/-- Shift counts are taken modulo 64 whatever the width. -/
def shiftCount (b : Int) : Nat :=
  (b % 64).toNat

/-- Repeated squaring: `result * base ^ exponent`, reduced at every step. -/
def powerLoop (modulus base result exponent : Nat) : Nat :=
  if exponent = 0 then result
  else
    powerLoop modulus (base * base % modulus)
      (if exponent % 2 = 1 then result * base % modulus else result) (exponent / 2)
termination_by exponent

/-- A width, and whether words of it are read as signed. -/
structure Format where
  width : Nat
  signed : Bool
deriving DecidableEq, Repr

namespace Format

/-- The word that an integer is kept as in this format. -/
def residue (f : Format) (x : Int) : Int :=
  Word.residue f.width x

/-- The signed reading of a word of this format. -/
def reading (f : Format) (x : Int) : Int :=
  Word.reading f.width x

def add (f : Format) (a b : Int) : Int := f.residue (a + b)

def sub (f : Format) (a b : Int) : Int := f.residue (a - b)

def mul (f : Format) (a b : Int) : Int := f.residue (a * b)

/-- Runs a division once its divisor is known not to be zero: on the signed readings, or on the
operands as they are. -/
def onDivisor (f : Format) (operation : String) (signedDiv unsignedDiv : Int → Int → Int)
    (a b : Int) : Except EvalError Int :=
  if b = 0 then .error (.divisionByZero operation)
  else if f.signed then
    if f.reading b = 0 then .error (.breach .vanishingDivisor)
    else .ok (f.residue (signedDiv (f.reading a) (f.reading b)))
  else .ok (unsignedDiv a b)

/-- The quotient, rounded toward zero in a signed format. -/
def div (f : Format) (a b : Int) : Except EvalError Int :=
  f.onDivisor "Division" Int.tdiv Int.fdiv a b

/-- The remainder; in a signed format it has the sign of the dividend. -/
def mod (f : Format) (a b : Int) : Except EvalError Int :=
  f.onDivisor "Modulo" Int.tmod Int.fmod a b

/-- The power of a word. A signed format refuses exponents that read as negative. -/
def pow (f : Format) (base exponent : Int) : Except EvalError Int :=
  if f.signed && f.reading exponent < 0 then .error .negativeExponent
  else
    let start := (f.residue base).toNat
    .ok (f.residue (powerLoop (modulus f.width) start 1 exponent.toNat))

def neg (f : Format) (a : Int) : Int := f.residue (-(f.reading a))

/-- The absolute value of the reading. The least signed word is its own. -/
def abs (f : Format) (a : Int) : Int :=
  if f.signed then f.residue (f.reading a).natAbs else f.residue a

def shiftLeft (f : Format) (a b : Int) : Int :=
  f.residue (a * modulus (shiftCount b))

/-- The right shift: arithmetic in a signed format, logical in an unsigned one. -/
def shiftRight (f : Format) (a b : Int) : Int :=
  if f.signed then f.residue (f.reading a / modulus (shiftCount b))
  else a / modulus (shiftCount b)

def bitAnd (f : Format) (a b : Int) : Int := f.residue (Word.bitAnd a b)

def bitOr (f : Format) (a b : Int) : Int := f.residue (Word.bitOr a b)

def bitXor (f : Format) (a b : Int) : Int := f.residue (Word.bitXor a b)

def complement (f : Format) (a : Int) : Int := f.residue (Word.complement a)

def binary (f : Format) : BinaryOp → Int → Int → Except EvalError Int
  | .add, a, b => .ok (f.add a b)
  | .sub, a, b => .ok (f.sub a b)
  | .mul, a, b => .ok (f.mul a b)
  | .div, a, b => f.div a b
  | .mod, a, b => f.mod a b
  | .caret, a, b | .doubleStar, a, b => f.pow a b
  | .shiftLeft, a, b => .ok (f.shiftLeft a b)
  | .shiftRight, a, b => .ok (f.shiftRight a b)
  | .bitAnd, a, b => .ok (f.bitAnd a b)
  | .bitXor, a, b => .ok (f.bitXor a b)
  | .bitOr, a, b => .ok (f.bitOr a b)

def unary (f : Format) : UnaryOp → Int → Int
  | .minus, a => f.neg a
  | .plus, a => f.residue a
  | .complement, a => f.complement a

/-- A function of words. The least and the greatest argument are found among the residues, in a
signed format too, where `-1` is therefore the greatest of all. -/
def call (f : Format) : Function → List Int → Except EvalError Int
  | .abs, [a] => .ok (f.abs a)
  | .xor, [a, b] => .ok (f.bitXor a b)
  | .min, a :: as => .ok (f.residue (as.foldl min a))
  | .max, a :: as => .ok (f.residue (as.foldl max a))
  | fn, args => .error (if fn.onWords then .arity fn args.length else .notOnWords fn)

end Format

/-- The lowest `width` bits of a number, the highest first. -/
def bits (width n : Nat) : List Char :=
  (List.range width).reverse.map fun i => if n.testBit i then '1' else '0'

/-- All bits of a word, in groups of four from the left. -/
def pattern (width : Nat) (value : Int) : String :=
  Text.joinGroups " " (Text.chunks 4 (bits width (residue width value).toNat))

end Reckon.Word
