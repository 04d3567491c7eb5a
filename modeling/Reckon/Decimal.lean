import Reckon.Radix

/-!
# Decimal numbers in text

A decimal number is an integer of digits with a power of ten. Its text has digits, at most one point
among or around them, and possibly an exponent: `12`, `1.`, `.5`, `1.5e-7`.
-/

namespace Reckon

/-- The number `digits * 10 ^ exponent`. -/
structure Decimal where
  digits : Nat
  exponent : Int
deriving DecidableEq, Repr

namespace Decimal

def toRat (d : Decimal) : Rat :=
  d.digits * 10 ^ d.exponent

/-- Reads a run of digits that must not be empty. -/
def natural? (cs : List Char) : Option Nat :=
  if cs.isEmpty then none else Radix.dec.value? cs

/-- Reads digits after a sign, if there is one. -/
def signed? : List Char → Option Int
  | '-' :: cs => (natural? cs).map fun n => -(n : Int)
  | '+' :: cs => (natural? cs).map Int.ofNat
  | cs => (natural? cs).map Int.ofNat

/-- Reads what may follow the digits: nothing, or an exponent after `e` or `E`. -/
def exponent? : List Char → Option Int
  | [] => some 0
  | c :: cs => if c == 'e' || c == 'E' then signed? cs else none

/-- Reads a point and the digits after it, if a point comes next, and returns what follows. -/
def splitFraction : List Char → List Char × List Char
  | '.' :: cs => (cs.takeWhile Radix.dec.isDigit, cs.dropWhile Radix.dec.isDigit)
  | cs => ([], cs)

/-- Reads a decimal number. The digits before and after the point must not both be missing. -/
def ofText? (cs : List Char) : Option Decimal := do
  let whole := cs.takeWhile Radix.dec.isDigit
  let (fraction, rest) := splitFraction (cs.dropWhile Radix.dec.isDigit)
  let digits ← natural? (whole ++ fraction)
  let exponent ← exponent? rest
  return ⟨digits, exponent - fraction.length⟩

end Decimal

end Reckon
