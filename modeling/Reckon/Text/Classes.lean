/-!
# Blanks and digits

Classes of characters beyond ASCII are tables of closed ranges of code points, and one lookup serves
them all. Two classes are known by more than their table: the blanks, which are taken off the ends
of a text, and the decimal digits, which have values.

Unicode (version 14.0) has 66 runs of ten decimal digits. Beyond them stand digits that are written
for show: superscripts, circled and dotted digits. They count as digits when a text is classified,
and have no place in a numeral.
-/

namespace Reckon.Text

/-- A closed range of code points, given by its ends. -/
structure CodeRange where
  first : Nat
  last : Nat

namespace CodeRange

/-- Whether the character lies in the range, ends included. -/
def covers (r : CodeRange) (c : Char) : Bool :=
  r.first ≤ c.toNat && c.toNat ≤ r.last

/-- Whether one of the ranges covers the character. -/
def anyCovers (rs : List CodeRange) (c : Char) : Bool :=
  rs.any (·.covers c)

end CodeRange

/-- The white space of the Unicode standard and the four ASCII separators U+001C to U+001F. The
zero-width space U+200B and the byte order mark are not among them. -/
def blankRanges : List CodeRange :=
  [⟨0x09, 0x0D⟩, ⟨0x1C, 0x20⟩, ⟨0x85, 0x85⟩, ⟨0xA0, 0xA0⟩, ⟨0x1680, 0x1680⟩, ⟨0x2000, 0x200A⟩,
   ⟨0x2028, 0x2029⟩, ⟨0x202F, 0x202F⟩, ⟨0x205F, 0x205F⟩, ⟨0x3000, 0x3000⟩]

/-- Whether the character separates and never means anything. -/
def isBlank (c : Char) : Bool :=
  CodeRange.anyCovers blankRanges c

/-- The text without the blanks at its two ends. -/
def trim (cs : List Char) : List Char :=
  ((cs.dropWhile isBlank).reverse.dropWhile isBlank).reverse

/-- The zero of each run of decimal digits. A run has all ten of them, in ascending order. -/
def digitZeros : List Nat :=
  [0x30, 0x660, 0x6F0, 0x7C0, 0x966, 0x9E6, 0xA66, 0xAE6, 0xB66, 0xBE6, 0xC66, 0xCE6, 0xD66,
   0xDE6, 0xE50, 0xED0, 0xF20, 0x1040, 0x1090, 0x17E0, 0x1810, 0x1946, 0x19D0, 0x1A80, 0x1A90,
   0x1B50, 0x1BB0, 0x1C40, 0x1C50, 0xA620, 0xA8D0, 0xA900, 0xA9D0, 0xA9F0, 0xAA50, 0xABF0, 0xFF10,
   0x104A0, 0x10D30, 0x11066, 0x110F0, 0x11136, 0x111D0, 0x112F0, 0x11450, 0x114D0, 0x11650,
   0x116C0, 0x11730, 0x118E0, 0x11950, 0x11C50, 0x11D50, 0x11DA0, 0x16A60, 0x16AC0, 0x16B50,
   0x1D7CE, 0x1D7D8, 0x1D7E2, 0x1D7EC, 0x1D7F6, 0x1E140, 0x1E2F0, 0x1E950, 0x1FBF0]

/-- The value of a decimal digit of any script. -/
def decimalDigit? (c : Char) : Option Nat :=
  (digitZeros.find? fun z => z ≤ c.toNat && c.toNat < z + 10).map (c.toNat - ·)

/-- Digits with no decimal value of their own: superscript, subscript, circled and the like. -/
def ornamentalDigitRanges : List CodeRange :=
  [⟨0xB2, 0xB3⟩, ⟨0xB9, 0xB9⟩, ⟨0x1369, 0x1371⟩, ⟨0x19DA, 0x19DA⟩, ⟨0x2070, 0x2070⟩,
   ⟨0x2074, 0x2079⟩, ⟨0x2080, 0x2089⟩, ⟨0x2460, 0x2468⟩, ⟨0x2474, 0x247C⟩, ⟨0x2488, 0x2490⟩,
   ⟨0x24EA, 0x24EA⟩, ⟨0x24F5, 0x24FD⟩, ⟨0x24FF, 0x24FF⟩, ⟨0x2776, 0x277E⟩, ⟨0x2780, 0x2788⟩,
   ⟨0x278A, 0x2792⟩, ⟨0x10A40, 0x10A43⟩, ⟨0x10E60, 0x10E68⟩, ⟨0x11052, 0x1105A⟩,
   ⟨0x1F100, 0x1F10A⟩]

/-- Whether the character is a digit of either kind. -/
def isDigitLike (c : Char) : Bool :=
  (decimalDigit? c).isSome || CodeRange.anyCovers ornamentalDigitRanges c

/-- Reads digits as one decimal number, the first the most significant. There is no reading when
one of them has no decimal value. -/
def decimalValue? (cs : List Char) : Option Nat :=
  cs.foldlM (fun n c => (decimalDigit? c).map (10 * n + ·)) 0

end Reckon.Text
