import Reckon.Text.Grouped

/-!
# Radixes and numerals

Numbers are read and shown in four radixes. A radix knows the mark that announces it (`0x`), the
digits it has, and how a run of digits and a number stand for each other.
-/

namespace Reckon

/-- The radix of a numeral. -/
inductive Radix where
  | bin | oct | dec | hex
deriving DecidableEq, Repr

namespace Radix

/-- The number of digits a radix has. -/
def base : Radix → Nat
  | bin => 2
  | oct => 8
  | dec => 10
  | hex => 16

def ofBase? : Nat → Option Radix
  | 2 => some bin
  | 8 => some oct
  | 10 => some dec
  | 16 => some hex
  | _ => none

theorem ofBase?_base (r : Radix) : ofBase? r.base = some r := by
  cases r <;> rfl

/-- What stands in front of a numeral to announce its radix. Decimal numerals need no mark. -/
def mark : Radix → String
  | bin => "0b"
  | oct => "0o"
  | dec => ""
  | hex => "0x"

/-- The radix announced by a zero and the given letter, in either case. -/
def ofMarkLetter? (c : Char) : Option Radix :=
  match c.toLower with
  | 'x' => some hex
  | 'b' => some bin
  | 'o' => some oct
  | _ => none

/-- How error messages call a numeral of this radix. -/
def adjective : Radix → String
  | bin => "binary"
  | oct => "octal"
  | dec => "decimal"
  | hex => "hex"

/-- The value of an ASCII digit or of a letter a to f in either case. -/
def digitValue? (c : Char) : Option Nat :=
  if '0' ≤ c ∧ c ≤ '9' then some (c.toNat - '0'.toNat)
  else if 'a' ≤ c ∧ c ≤ 'f' then some (c.toNat - 'a'.toNat + 10)
  else if 'A' ≤ c ∧ c ≤ 'F' then some (c.toNat - 'A'.toNat + 10)
  else none

/-- The value of a character as a digit of this radix. -/
def digit? (r : Radix) (c : Char) : Option Nat :=
  (digitValue? c).filter (· < r.base)

/-- Whether the character is a digit of this radix. -/
def isDigit (r : Radix) (c : Char) : Bool :=
  (r.digit? c).isSome

/-- The number that digits denote by their places, the first the most significant. There is none
if a character is no digit of the radix. -/
def value? (r : Radix) (cs : List Char) : Option Nat :=
  cs.foldlM (fun n c => (r.digit? c).map (r.base * n + ·)) 0

/-- The digits of a number, the most significant first, with capital letters above nine. -/
def digits (r : Radix) (n : Nat) : List Char :=
  (Nat.toDigits r.base n).map Char.toUpper

/-- The name under which a view in this radix is listed. -/
def label : Radix → String
  | bin => "Bin"
  | oct => "Oct"
  | dec => "Dec"
  | hex => "Hex"

/-- The number of digits in a group. -/
def groupSize : Radix → Nat
  | oct => 3
  | bin | dec | hex => 4

/-- An integer in a radix. A decimal integer is written bare. In any other radix its digits are
grouped, with the radix mark in front and the sign before the mark. -/
def write (r : Radix) (n : Int) : String :=
  match r with
  | dec => toString n
  | r =>
    (if n < 0 then "-" else "") ++ r.mark ++
      Text.groupDigits (r.digits n.natAbs) r.groupSize "_"

end Radix

/-- A numeral as it stands in an expression, not yet a number: what it is worth depends on the
arithmetic that reads it. Separators and the radix mark are already gone from its text. -/
structure Numeral where
  /-- The digits, for a fractional numeral with its point and exponent. -/
  text : String
  /-- The radix that the digits are written in. -/
  radix : Radix := .dec
  /-- Whether a mark such as `0x` announced the radix. -/
  marked : Bool := false
  /-- Whether the numeral has a point or an exponent. -/
  fractional : Bool := false
deriving DecidableEq, Repr

namespace Numeral

/-- The numeral with its radix mark, in small letters, if it had one. -/
def spelling (n : Numeral) : String :=
  if n.marked then n.radix.mark ++ n.text else n.text

end Numeral

end Reckon
