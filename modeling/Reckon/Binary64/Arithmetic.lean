import Reckon.Binary64.Basic

/-!
# Arithmetic of binary64 numbers

`nearest` takes a rational to the binary64 number closest to it, on a tie to the one with an even
mantissa; beyond the largest finite number it gives an infinity. It is the only place where
precision is lost: on finite numbers each operation computes the exact rational and rounds it once.
What is left to say is the sign of a zero and the part that infinities play: an infinity absorbs
finite numbers, and where two claims meet (`∞ - ∞`, `0 * ∞`, `0 / 0`, `∞ / ∞`) there is no number.

The transcendental functions and the square root are those of the machine, reached through the bits
of their argument. Outside its domain each of them answers with a NaN or an infinity.
-/

namespace Reckon.Binary64

/-- The exponent of the greatest power of two that does not exceed a positive rational. The
logarithms of numerator and denominator give it up to one. -/
def floorLog2 (a : Rat) : Int :=
  let k : Int := (a.num.natAbs.log2 : Int) - a.den.log2
  if 2 ^ k ≤ a then k else k - 1

/-- The integer closest to a rational, on a tie the even one. -/
def roundEven (a : Rat) : Int :=
  let below := a.floor
  let rest := a - below
  if rest < 1 / 2 then below
  else if 1 / 2 < rest then below + 1
  else if below % 2 = 0 then below
  else below + 1

/-- The number with these parts; an infinity if its exponent is too great for the format. -/
def assemble (negative : Bool) (mantissa : Nat) (exponent : Int) : Binary64 :=
  if h : mantissa < 0x20000000000000 ∧ -1074 ≤ exponent ∧ exponent ≤ 971 ∧
      (exponent = -1074 ∨ 0x10000000000000 ≤ mantissa) then
    .finite ⟨negative, mantissa, exponent, h.1, h.2.1, h.2.2.1, h.2.2.2⟩
  else .infinite negative

/-- Rounds a positive rational. The exponent is chosen so that the mantissa gets 53 bits, or is the
least of the format; rounding up may then fill a 54th bit, and the exponent moves on by one. -/
def roundMagnitude (negative : Bool) (a : Rat) : Binary64 :=
  let exponent := max (floorLog2 a - 52) (-1074)
  let mantissa := (roundEven (a / 2 ^ exponent)).toNat
  if mantissa = 0x20000000000000 then assemble negative 0x10000000000000 (exponent + 1)
  else assemble negative mantissa exponent

/-- The binary64 number nearest to a rational. Zero is positive. -/
def nearest (r : Rat) : Binary64 :=
  if r = 0 then zero false
  else if r < 0 then roundMagnitude true (-r)
  else roundMagnitude false r

def ofInt (n : Int) : Binary64 :=
  nearest n

/-- Rounds an exact result; a zero gets the sign that the operation gives it. -/
def rounded (r : Rat) (zeroNegative : Bool) : Binary64 :=
  if r = 0 then zero zeroNegative else nearest r

def neg : Binary64 → Binary64
  | finite x => finite x.neg
  | infinite s => infinite (!s)
  | nan => nan

def abs : Binary64 → Binary64
  | finite x => finite x.abs
  | infinite _ => infinite false
  | nan => nan

/-- The sum. It is a negative zero only if both operands are. -/
def add : Binary64 → Binary64 → Binary64
  | finite x, finite y => rounded (x.toRat + y.toRat) (x.negative && y.negative)
  | infinite s, infinite t => if s = t then infinite s else nan
  | infinite s, finite _ => infinite s
  | finite _, infinite t => infinite t
  | nan, _ | _, nan => nan

def sub (a b : Binary64) : Binary64 :=
  add a (neg b)

def mul : Binary64 → Binary64 → Binary64
  | finite x, finite y => rounded (x.toRat * y.toRat) (x.negative != y.negative)
  | infinite s, infinite t => infinite (s != t)
  | infinite s, finite y => if y.mantissa = 0 then nan else infinite (s != y.negative)
  | finite x, infinite t => if x.mantissa = 0 then nan else infinite (x.negative != t)
  | nan, _ | _, nan => nan

def div : Binary64 → Binary64 → Binary64
  | finite x, finite y =>
    if y.mantissa = 0 then
      if x.mantissa = 0 then nan else infinite (x.negative != y.negative)
    else rounded (x.toRat / y.toRat) (x.negative != y.negative)
  | infinite _, infinite _ => nan
  | infinite s, finite y => infinite (s != y.negative)
  | finite x, infinite t => zero (x.negative != t)
  | nan, _ | _, nan => nan

/-- The integer between zero and a rational that is closest to it. -/
def truncate (r : Rat) : Int :=
  if r < 0 then -(-r).floor else r.floor

/-- The remainder of the division toward zero. It has the sign of the dividend, a zero too. There
is none of an infinity, nor for a zero divisor; an infinite divisor leaves the dividend whole. -/
def rem : Binary64 → Binary64 → Binary64
  | finite x, finite y =>
    if y.mantissa = 0 then nan
    else rounded (x.toRat - y.toRat * truncate (x.toRat / y.toRat)) x.negative
  | finite x, infinite _ => finite x
  | infinite _, _ => nan
  | nan, _ | _, nan => nan

/-- The lesser of two numbers, the first unless the second is really less. -/
def least (a b : Binary64) : Binary64 :=
  if lt b a then b else a

/-- The greater of two numbers, the first unless the second is really greater. -/
def greatest (a b : Binary64) : Binary64 :=
  if lt a b then b else a

/-- Applies a function of the machine's own doubles. -/
def viaFloat (f : Float → Float) (x : Binary64) : Binary64 :=
  ofBits (f (Float.ofBits x.toBits)).toBits

def sin : Binary64 → Binary64 := viaFloat Float.sin

def cos : Binary64 → Binary64 := viaFloat Float.cos

def tan : Binary64 → Binary64 := viaFloat Float.tan

def asin : Binary64 → Binary64 := viaFloat Float.asin

def acos : Binary64 → Binary64 := viaFloat Float.acos

def atan : Binary64 → Binary64 := viaFloat Float.atan

def sqrt : Binary64 → Binary64 := viaFloat Float.sqrt

/-- The logarithm to base ten. -/
def log10 : Binary64 → Binary64 := viaFloat Float.log10

/-- The natural logarithm. -/
def ln : Binary64 → Binary64 := viaFloat Float.log

def pow (x y : Binary64) : Binary64 :=
  ofBits (Float.pow (Float.ofBits x.toBits) (Float.ofBits y.toBits)).toBits

end Reckon.Binary64
