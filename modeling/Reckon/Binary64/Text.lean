import Reckon.Binary64.Arithmetic
import Reckon.Decimal
import Reckon.Text.Written

/-!
# Reading and writing decimals

A decimal number is read as the binary64 number nearest to it. Exponents may be as long as one
likes to write them, so numbers far outside the range of the format are told by their size and not
computed. What a person writes may also have a sign, or name an infinity or a NaN.

Of all decimals that are read as a given number, the shortest is written, and among those of its
length the closest. For a count of digits only the two points of that decimal grid that enclose
the number come into question: if any point of the grid reads back, one of them does. So the counts
are tried in turn, from one digit to seventeen.

With the digits settled (`Finite.shortest`) they are laid out. A number whose leading digit has a
place from `10 ^ -4` to `10 ^ 15` is written with the point in its place, any other with an
exponent. Two layouts differ in what they add: results are written bare, option values in full.
-/

namespace Reckon.Binary64

/-- The number nearest to a decimal. From `10 ^ 400` on it is an infinity, and below `10 ^ -400`,
where twice the logarithm leaves enough room, it is zero. -/
def ofDecimal (d : Decimal) : Binary64 :=
  if d.digits = 0 then zero false
  else if 400 < d.exponent then infinite false
  else if d.exponent + (d.digits.log2 : Int) < -400 then zero false
  else nearest d.toRat

/-- The number that a text of digits, point and exponent is read as. -/
def ofText? (cs : List Char) : Option Binary64 :=
  (Decimal.ofText? cs).map ofDecimal

/-- What the names of the format's other members stand for. -/
def named? (cs : List Char) : Option Binary64 :=
  match String.ofList (cs.map Char.toLower) with
  | "inf" | "infinity" => some (infinite false)
  | "nan" => some nan
  | _ => none

/-- A number without a sign. -/
def unsigned? (cs : List Char) : Option Binary64 :=
  ofText? cs <|> named? cs

def signed? : List Char → Option Binary64
  | '-' :: cs => (unsigned? cs).map neg
  | '+' :: cs => unsigned? cs
  | cs => unsigned? cs

/-- The number that a person has written. -/
def ofWritten? (cs : List Char) : Option Binary64 :=
  (Text.plain? cs).bind signed?

namespace Finite

/-- The exact value of a number as a decimal, sign apart: a power of two is a power of five over a
power of ten. -/
def toDecimal (x : Finite) : Decimal :=
  if 0 ≤ x.exponent then ⟨x.mantissa * Nat.pow 2 x.exponent.toNat, 0⟩
  else ⟨x.mantissa * Nat.pow 5 (-x.exponent).toNat, x.exponent⟩

/-- Whether the decimal is read as this number, sign apart. -/
def readsBack (x : Finite) (d : Decimal) : Bool :=
  ofDecimal d == .finite x.abs

/-- The exponent of the least power of ten above a positive rational. The binary logarithm gives it
up to three. -/
def decimalScale (a : Rat) : Int :=
  let estimate := floorLog2 a * 1233 / 4096
  let candidates := [estimate, estimate + 1, estimate + 2]
  (candidates.find? fun k => a < 10 ^ k).getD (estimate + 3)

/-- The point of the grid `10 ^ grid` that reads back and is closest to the number, on a tie the
even one. -/
def onGrid? (x : Finite) (grid : Int) : Option Decimal :=
  let a := x.magnitude
  let floor := (a / 10 ^ grid).floor.toNat
  let below : Decimal := ⟨floor, grid⟩
  let above : Decimal := ⟨floor + 1, grid⟩
  match x.readsBack below, x.readsBack above with
  | false, false => none
  | true, false => some below
  | false, true => some above
  | true, true =>
    let down := a - below.toRat
    let up := above.toRat - a
    if down < up || (down == up && floor % 2 == 0) then some below else some above

/-- The decimal that a nonzero number is written as, sign apart. -/
def shortest (x : Finite) : Decimal :=
  let scale := decimalScale x.magnitude
  ((List.range 17).findSome? fun n => x.onGrid? (scale - (n + 1 : Nat))).getD x.toDecimal

end Finite

/-- What a layout adds to the digits. -/
structure Layout where
  /-- What follows an integer written without an exponent. -/
  integerTail : String
  /-- The least number of digits in an exponent. -/
  exponentWidth : Nat

namespace Layout

/-- The layout of results: `4`, `1e-7`. -/
def bare : Layout := ⟨"", 1⟩

/-- The layout of values that are quoted back: `4.0`, `1e-07`. -/
def full : Layout := ⟨".0", 2⟩

def zeros (n : Nat) : String :=
  String.ofList (List.replicate n '0')

/-- An exponent with its sign. -/
def exponentText (l : Layout) (e : Int) : String :=
  let digits := toString e.natAbs
  (if e < 0 then "e-" else "e+") ++ zeros (l.exponentWidth - digits.length) ++ digits

/-- Digits whose first has the place `10 ^ (point - 1)`, without trailing zeros. -/
def arrange (l : Layout) (ds : List Char) (point : Int) : String :=
  if point < -3 || 16 < point then
    let tail := if ds.length ≤ 1 then "" else "." ++ String.ofList (ds.drop 1)
    String.ofList (ds.take 1) ++ tail ++ l.exponentText (point - 1)
  else if point ≤ 0 then "0." ++ zeros (-point).toNat ++ String.ofList ds
  else
    let p := point.toNat
    if ds.length ≤ p then String.ofList ds ++ zeros (p - ds.length) ++ l.integerTail
    else String.ofList (ds.take p) ++ "." ++ String.ofList (ds.drop p)

/-- A decimal that is not zero. -/
def ofDecimal (l : Layout) (d : Decimal) : String :=
  let ds := Nat.toDigits 10 d.digits
  l.arrange (ds.reverse.dropWhile (· == '0')).reverse (ds.length + d.exponent)

def ofFinite (l : Layout) (x : Finite) : String :=
  (if x.negative then "-" else "") ++
    if x.mantissa = 0 then "0" ++ l.integerTail else l.ofDecimal x.shortest

def render (l : Layout) : Binary64 → String
  | finite x => l.ofFinite x
  | infinite negative => if negative then "-inf" else "inf"
  | nan => "nan"

end Layout

/-- The text of a result: an integer below `10 ^ 21` by all its digits, so that a zero has no sign,
any other number by the fewest that read back. -/
def text : Binary64 → String
  | finite x =>
    if x.isIntegral && x.toRat.num.natAbs < 1000000000000000000000 then toString x.toRat.num
    else Layout.bare.ofFinite x
  | x => Layout.bare.render x

end Reckon.Binary64
