/-!
# Binary64 numbers

A number of the binary64 format is finite, infinite or not a number. A finite one is a sign, a
mantissa of at most 53 bits and an exponent, in the one form that the format stores: the exponent is
the least that there is, or the mantissa has all its 53 bits. So two finite numbers that differ as
data differ in value or in the sign of a zero.

`Finite.toRat` is the value of a finite number. Everything else in this folder is stated through it.
-/

namespace Reckon

/-- A finite number: plus or minus `mantissa * 2 ^ exponent`. -/
structure Binary64.Finite where
  negative : Bool
  mantissa : Nat
  exponent : Int
  mantissa_lt : mantissa < 0x20000000000000
  le_exponent : -1074 ≤ exponent
  exponent_le : exponent ≤ 971
  /-- Below 53 bits only with the least exponent. -/
  normal : exponent = -1074 ∨ 0x10000000000000 ≤ mantissa
deriving DecidableEq, Repr

inductive Binary64 where
  | finite (x : Binary64.Finite)
  | infinite (negative : Bool)
  | nan
deriving DecidableEq, Repr

namespace Binary64

namespace Finite

/-- The value without its sign. -/
def magnitude (x : Finite) : Rat :=
  x.mantissa * 2 ^ x.exponent

def toRat (x : Finite) : Rat :=
  if x.negative then -x.magnitude else x.magnitude

/-- Whether the value is an integer. -/
def isIntegral (x : Finite) : Bool :=
  x.toRat.den == 1

def neg (x : Finite) : Finite :=
  { x with negative := !x.negative }

def abs (x : Finite) : Finite :=
  { x with negative := false }

end Finite

def zero (negative : Bool) : Binary64 :=
  .finite ⟨negative, 0, -1074, by decide, by decide, by decide, .inl rfl⟩

def isFinite : Binary64 → Bool
  | finite _ => true
  | _ => false

def isZero : Binary64 → Bool
  | finite x => x.mantissa == 0
  | _ => false

/-- Up to here, `2 ^ 53 - 1`, every integer is a binary64 number, and no other integer is rounded to
the same one. -/
def maxSafeInteger : Nat := 0x1FFFFFFFFFFFFF

/-- Whether the number is an integer in the range where integers are told apart. -/
def isSafeInteger : Binary64 → Bool
  | finite x => x.isIntegral && x.toRat.num.natAbs ≤ maxSafeInteger
  | _ => false

/-- Nothing compares with a NaN, and the two zeros are equal. -/
def lt : Binary64 → Binary64 → Bool
  | finite x, finite y => x.toRat < y.toRat
  | infinite s, infinite t => s && !t
  | infinite s, finite _ => s
  | finite _, infinite t => !t
  | nan, _ | _, nan => false

def le : Binary64 → Binary64 → Bool
  | finite x, finite y => x.toRat ≤ y.toRat
  | infinite s, infinite t => s || !t
  | infinite s, finite _ => s
  | finite _, infinite t => !t
  | nan, _ | _, nan => false

/-- The number that 64 bits store: a sign bit, eleven bits of exponent, 52 of mantissa. -/
def ofBits (bits : UInt64) : Binary64 :=
  let n := bits.toNat
  let negative := n / 0x8000000000000000 == 1
  let biased := n / 0x10000000000000 % 0x800
  let fraction := n % 0x10000000000000
  if h : biased = 0x7FF then
    if fraction = 0 then .infinite negative else .nan
  else if h0 : biased = 0 then
    .finite ⟨negative, fraction, -1074, by omega, by decide, by decide, .inl rfl⟩
  else
    .finite ⟨negative, 0x10000000000000 + fraction, (biased : Int) - 1075,
      by omega, by omega, by omega, .inr (by omega)⟩

def signBit (negative : Bool) : Nat :=
  if negative then 0x8000000000000000 else 0

/-- The 64 bits that store a number. Of the many that store a NaN it takes one. -/
def toBits : Binary64 → UInt64
  | finite x =>
    UInt64.ofNat <| signBit x.negative +
      if x.mantissa < 0x10000000000000 then x.mantissa
      else (x.exponent + 1075).toNat * 0x10000000000000 + (x.mantissa - 0x10000000000000)
  | infinite negative => UInt64.ofNat (signBit negative + 0x7FF0000000000000)
  | nan => 0x7FF8000000000000

/-! ## The stored form loses nothing

`toBits` tells the two ranges of numbers apart by the mantissa, `ofBits` by the exponent that was
stored. They agree because a finite number is in the one form that the format stores: a mantissa of
fewer than 53 bits comes with the least exponent, which is stored as zero, and any other exponent is
stored as one or more. What is left is division and remainder by the places of the three parts. -/

theorem signBit_eq (negative : Bool) : signBit negative = negative.toNat * 0x8000000000000000 := by
  cases negative <;> rfl

theorem toNat_toBits_finite (x : Finite) :
    (toBits (finite x)).toNat = signBit x.negative +
      if x.mantissa < 0x10000000000000 then x.mantissa
      else (x.exponent + 1075).toNat * 0x10000000000000 + (x.mantissa - 0x10000000000000) := by
  have := x.mantissa_lt
  have := x.exponent_le
  have := signBit_eq x.negative
  have := x.negative.toNat_le
  unfold toBits
  rw [UInt64.toNat_ofNat', Nat.mod_eq_of_lt]
  split <;> omega

theorem ofBits_toBits_finite (x : Finite) : ofBits (finite x).toBits = finite x := by
  have hbits := toNat_toBits_finite x
  rw [signBit_eq] at hbits
  obtain ⟨negative, m, e, hm, he, he', hn⟩ := x
  dsimp only at hbits
  generalize toBits _ = bits at hbits
  unfold ofBits
  have hle := negative.toNat_le
  have hsign : (bits.toNat / 0x8000000000000000 == 1) = negative := by
    have : bits.toNat / 0x8000000000000000 = negative.toNat := by
      rw [hbits]
      split <;> omega
    rw [this]
    cases negative <;> rfl
  dsimp only
  rw [hsign]
  by_cases hs : m < 0x10000000000000
  · rw [if_pos hs] at hbits
    rw [dif_neg (by omega), dif_pos (by omega)]
    simp only [finite.injEq, Finite.mk.injEq, true_and]
    omega
  · rw [if_neg hs] at hbits
    rw [dif_neg (by omega), dif_neg (by omega)]
    simp only [finite.injEq, Finite.mk.injEq, true_and]
    omega

theorem ofBits_toBits : (x : Binary64) → ofBits x.toBits = x
  | finite x => ofBits_toBits_finite x
  | infinite false => by decide
  | infinite true => by decide
  | nan => by decide

end Binary64

end Reckon
