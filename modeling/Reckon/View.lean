import Reckon.Binary64.Text
import Reckon.Options.Basic
import Reckon.Radix
import Reckon.Word

/-!
# Results and their views

The value of an expression is a result. A word comes with the options it was computed under, since
they say how wide it is and how it is read.

A result is shown in one radix, with the others beside it. Words can be shown in every radix, and
their sign is a matter of the decimal views alone; of binary64 numbers only the safe integers can.
-/

namespace Reckon

inductive Result where
  | float (value : Binary64) (note : Option String)
  | word (value : Int) (options : Options)
deriving DecidableEq, Repr

namespace Options

/-- The format of the words that are computed under these options. -/
def wordFormat (o : Options) : Word.Format where
  width := o.width
  signed := o.signed

end Options

/-- A result in words. -/
structure View where
  primary : String
  /-- Further views with their labels, in the order in which they are listed. -/
  alternates : List (String × String) := []
  /-- The bits of a word. -/
  bitPattern : Option String := none
  note : Option String := none
deriving DecidableEq, Repr

namespace View

/-- The radixes that are listed beside a decimal view. -/
def otherRadixes : List Radix := [.hex, .oct, .bin]

/-- Labelled views of an integer in the given radixes. -/
def inRadixes (rs : List Radix) (n : Int) : List (String × String) :=
  rs.map fun r => (r.label, r.write n)

/-- A word, at the width and with the sign that the display asks for. -/
def ofWord (value : Int) (d : Display) : View :=
  let residue := Word.residue d.width value
  let signed := Word.reading d.width residue
  let shown := if d.signed then signed else residue
  let bitPattern := some (Word.pattern d.width residue)
  match d.displayBase with
  | .all =>
    { primary := toString shown ++ " (dec)"
      alternates := ("Dec (signed)", toString signed) :: ("Dec (unsigned)", toString residue) ::
        inRadixes otherRadixes residue
      bitPattern }
  | .only r =>
    { primary := if r = .dec then toString shown else r.write residue
      alternates := ("Dec", toString shown) ::
        inRadixes (otherRadixes.filter (· != r)) residue
      bitPattern }

/-- What stands behind a number that has no view in the radix asked for. -/
def notIntegral : String := "(non-integer: base views need an integral value)"

def castNote : String := "Non-integer: base views show integer casts."

/-- A number of which only the decimal view exists. -/
def ofFraction (text : String) : DisplayBase → View
  | .all => { primary := text, alternates := [("Value", text), ("Note", castNote)] }
  | .only .dec => { primary := text }
  | .only _ => { primary := text ++ " " ++ notIntegral }

/-- A number that is the integer `n` and has views in every radix. -/
def ofSafeInteger (text : String) (n : Int) : DisplayBase → View
  | .all => { primary := text, alternates := ("Dec", text) :: inRadixes otherRadixes n }
  | .only .dec => { primary := text, alternates := inRadixes otherRadixes n }
  | .only r =>
    { primary := text ++ " (int: " ++ r.write n ++ ")"
      alternates := ("Dec", text) :: inRadixes (otherRadixes.filter (· != r)) n }

/-- The integer that a number is, if it is a safe one. -/
def safeInteger? : Binary64 → Option Int
  | .finite x => if (Binary64.finite x).isSafeInteger then some x.toRat.num else none
  | _ => none

def ofFloat (value : Binary64) (note : Option String) (d : Display) : View :=
  let view := match safeInteger? value with
    | some n => ofSafeInteger value.text n d.displayBase
    | none => ofFraction value.text d.displayBase
  { view with note }

end View

namespace Result

/-- The view of a result under display options. -/
def view (r : Result) (d : Display) : View :=
  match r with
  | float value note => View.ofFloat value note d
  | word value _ => View.ofWord value d

/-- The display options of a result that is shown without any: a word's own, or the defaults. -/
def ownDisplay : Result → Display
  | float _ _ => {}
  | word _ options => options.display

end Result

end Reckon
