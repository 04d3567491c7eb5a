import Reckon.Decimal
import Reckon.Text.Classes

/-!
# Numbers as people write them

A number may be written with blanks around it, in the digits of any script, and with single
underscores between digits. `plain?` takes all this away, so that what is left can be read by
the strict rules. The four ASCII separators U+001C to U+001F, blanks elsewhere, are not passed over
here.
-/

namespace Reckon.Text

def isOuterBlank (c : Char) : Bool :=
  isBlank c && !(0x1C ≤ c.toNat && c.toNat ≤ 0x1F)

def isDecimalDigit (c : Char) : Bool :=
  (decimalDigit? c).isSome

/-- The ASCII digit of the same value, for a digit of any script. -/
def asciiDigit (c : Char) : Char :=
  match decimalDigit? c with
  | some d => d.digitChar
  | none => c

/-- A text with ASCII digits and without the underscores that divide them. An underscore that does
not stand between two digits spoils the text. -/
def undivided? (afterDigit : Bool) : List Char → Option (List Char)
  | [] => some []
  | c :: cs =>
    if c == '_' then
      if afterDigit && cs.head?.any isDecimalDigit then undivided? false cs else none
    else (undivided? (isDecimalDigit c) cs).map (asciiDigit c :: ·)

def plain? (cs : List Char) : Option (List Char) :=
  undivided? false ((cs.dropWhile isOuterBlank).reverse.dropWhile isOuterBlank).reverse

/-- The integer that is written with decimal digits, and with a sign if one likes. -/
def integer? (cs : List Char) : Option Int :=
  (plain? cs).bind Decimal.signed?

theorem asciiDigit_of_lt {c : Char} (h : c.toNat < 0x80) : asciiDigit c = c := by
  have all : ∀ n < 0x80, asciiDigit (Char.ofNat n) = Char.ofNat n := by decide +kernel
  simpa using all c.toNat h

/-- Whether a character stands for itself in a plain form. -/
def isPlain (c : Char) : Bool :=
  c.toNat < 0x80 && c != '_' && !isBlank c

theorem undivided?_eq_self (afterDigit : Bool) {cs : List Char} (h : ∀ c ∈ cs, isPlain c) :
    undivided? afterDigit cs = some cs := by
  induction cs generalizing afterDigit with
  | nil => rfl
  | cons c cs ih =>
    have hc := h c List.mem_cons_self
    simp only [isPlain, Bool.and_eq_true, decide_eq_true_eq, bne_iff_ne, ne_eq] at hc
    rw [undivided?, if_neg (by simpa using hc.1.2),
      ih _ fun d hd => h d (List.mem_cons_of_mem c hd)]
    simp [asciiDigit_of_lt hc.1.1]

theorem dropWhile_isOuterBlank {cs : List Char} (h : ∀ c ∈ cs, isPlain c) :
    cs.dropWhile isOuterBlank = cs := by
  cases cs with
  | nil => rfl
  | cons c cs =>
    have hc := h c List.mem_cons_self
    simp only [isPlain, Bool.and_eq_true, Bool.not_eq_true'] at hc
    simp [isOuterBlank, hc.2]

/-- A text that is plain already stays as it is. -/
theorem plain?_eq_self {cs : List Char} (h : ∀ c ∈ cs, isPlain c) : plain? cs = some cs := by
  have hr : ∀ c ∈ cs.reverse, isPlain c := fun c hc => h c (List.mem_reverse.1 hc)
  rw [plain?, dropWhile_isOuterBlank h, dropWhile_isOuterBlank hr, List.reverse_reverse,
    undivided?_eq_self false h]

end Reckon.Text
