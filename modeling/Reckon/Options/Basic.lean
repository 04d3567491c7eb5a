import Reckon.Options.Raw
import Reckon.Radix

/-!
# Options

What a calculation depends on besides its text: the radix of unmarked integers, the radix of the
answer, the kind of arithmetic, and the width and signedness of words. Options are built from raw
values. A change replaces some of the values that they are built from and builds them anew, so that
every value is read again, those that stay included; it is refused as a whole if one of its values
is.
-/

namespace Reckon

namespace Mode

def choices : List (Key × Mode) :=
  [(.word "float", float), (.word "int", integer)]

def read : Raw → Except OptionError Mode :=
  coerce Raw.mode? choices

end Mode

namespace InputBase

def choices : List (Key × InputBase) :=
  (.word "auto", auto) :: [.bin, .oct, .dec, .hex].map fun r => (.number r.base, fixed r)

def read : Raw → Except OptionError InputBase :=
  coerce Raw.inputBase? choices

end InputBase

namespace DisplayBase

def choices : List (Key × DisplayBase) :=
  ([.bin, .oct, .dec, .hex].map fun r => (.number r.base, only r)) ++ [(.word "all", all)]

def read : Raw → Except OptionError DisplayBase :=
  coerce Raw.displayBase? choices

end DisplayBase

/-- Accepts an integer between two bounds, either of which may be missing. -/
def checkRange (least greatest : Option Int) (value : Int) : Except OptionError Int :=
  if least.any (value < ·) || greatest.any (· < value) then
    .error (.outOfRange value least greatest)
  else .ok value

/-- Accepts an integer given as such; a truth value is none. -/
def checkInteger : Raw → Except OptionError Int
  | .integer n => .ok n
  | v => .error (.notInteger v)

/-- A number of bits, at least one. -/
abbrev Width := { n : Nat // 0 < n }

/-- The width where none is asked for. -/
def Width.standard : Width := ⟨64, by decide⟩

def checkWidth (v : Raw) : Except OptionError Width := do
  let n ← checkInteger v
  if h : 1 ≤ n then return ⟨n.toNat, by omega⟩
  else throw (.outOfRange n (some 1) none)

structure Options where
  inputBase : InputBase := .auto
  displayBase : DisplayBase := .only .dec
  mode : Mode := .float
  width : Width := Width.standard
  /-- Whether words are read as signed. -/
  signed : Bool := true
deriving DecidableEq, Repr

/-- The part of the options that showing an answer depends on. -/
structure Display where
  displayBase : DisplayBase := .only .dec
  width : Width := Width.standard
  signed : Bool := true
deriving DecidableEq, Repr

/-- Raw values for some of the options. -/
structure Changes where
  inputBase : Option Raw := none
  displayBase : Option Raw := none
  mode : Option Raw := none
  width : Option Raw := none
  signed : Option Raw := none
deriving DecidableEq, Repr

/-- A raw value for each option. -/
structure Given where
  inputBase : Raw
  displayBase : Raw
  mode : Raw
  width : Raw
  signed : Raw
deriving DecidableEq, Repr

/-- What is given instead, after a change. -/
def Given.override (g : Given) (c : Changes) : Given where
  inputBase := c.inputBase.getD g.inputBase
  displayBase := c.displayBase.getD g.displayBase
  mode := c.mode.getD g.mode
  width := c.width.getD g.width
  signed := c.signed.getD g.signed

namespace Options

/-- Options from raw values. They are read in the order of the structure, and the first one that is
refused is reported. -/
def ofGiven (g : Given) : Except OptionError Options := do
  return {
    inputBase := ← InputBase.read g.inputBase
    displayBase := ← DisplayBase.read g.displayBase
    mode := ← Mode.read g.mode
    width := ← checkWidth g.width
    signed := g.signed.isTrue }

/-- Options as the raw values that they could have been built from. -/
def given (o : Options) : Given where
  inputBase := .inputBase o.inputBase
  displayBase := .displayBase o.displayBase
  mode := .mode o.mode
  width := .integer o.width.val
  signed := .truth o.signed

/-- Options with some fields changed, and all of them read again. -/
def change (o : Options) (c : Changes) : Except OptionError Options :=
  ofGiven (o.given.override c)

/-- Options from raw values, with the defaults for the rest. -/
def ofChanges (c : Changes) : Except OptionError Options :=
  change {} c

def display (o : Options) : Display where
  displayBase := o.displayBase
  width := o.width
  signed := o.signed

end Options

/-- Display options from raw values, with the defaults for the rest. -/
def Display.ofChanges (c : Changes) : Except OptionError Display := do
  let g := ({} : Options).given.override c
  return {
    displayBase := ← DisplayBase.read g.displayBase
    width := ← checkWidth g.width
    signed := g.signed.isTrue }

end Reckon
