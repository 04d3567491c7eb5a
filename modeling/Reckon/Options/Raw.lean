import Reckon.Binary64.Text
import Reckon.Options.Setting
import Reckon.Text.Classes
import Reckon.Text.LowerCase

/-!
# Raw option values

Options come in loose form: a radix may be given as a number or as a text that spells one, or as the
setting itself. A raw value is what was given, before it is known to mean anything. If it turns out
to mean nothing it is refused, and quoted in the refusal.

Some options are chosen among a few settings. A choice is selected by a word or by a number. Words
may be written with blanks around them and in any case, numbers as integers, as floats of integral
value, or in digits of any script. A truth value is a number only for comparison: it counts as one
or zero and so selects no radix.
-/

namespace Reckon

inductive Raw where
  | text (s : String)
  | truth (b : Bool)
  | integer (n : Int)
  | float (x : Binary64)
  | list (items : List Int)
  /-- No value at all. -/
  | absent
  | mode (m : Mode)
  | inputBase (b : InputBase)
  | displayBase (b : DisplayBase)
deriving DecidableEq, Repr

namespace Raw

/-- The kind of a value, as messages call it. -/
def kind : Raw → String
  | text _ => "str"
  | truth _ => "bool"
  | integer _ => "int"
  | float _ => "float"
  | list _ => "list"
  | absent => "NoneType"
  | mode _ => "Mode"
  | inputBase _ => "InputBase"
  | displayBase _ => "DisplayBase"

/-- How a value is quoted in a message. -/
def shown? : Raw → Option String
  | text s => some s
  | truth b => some (if b then "True" else "False")
  | integer n => some (toString n)
  | float x => some (Binary64.Layout.full.render x)
  | list items => some ("[" ++ ", ".intercalate (items.map toString) ++ "]")
  | absent => none
  | mode m => some m.quoted
  | inputBase b => some b.quoted
  | displayBase b => some b.quoted

/-- What a message ends in to quote a value. -/
def suffix (v : Raw) : String :=
  match v.shown? with
  | some s => ": " ++ s
  | none => ""

/-- Whether a value counts as true: what is neither empty nor zero does, and so does a setting. -/
def isTrue : Raw → Bool
  | text s => !s.isEmpty
  | truth b => b
  | integer n => n != 0
  | float x => !x.isZero
  | list items => !items.isEmpty
  | absent => false
  | mode _ | inputBase _ | displayBase _ => true

def mode? : Raw → Option Mode
  | mode m => some m
  | _ => none

def inputBase? : Raw → Option InputBase
  | inputBase b => some b
  | _ => none

def displayBase? : Raw → Option DisplayBase
  | displayBase b => some b
  | _ => none

end Raw

/-- What a value must equal to select a choice. -/
inductive Key where
  | word (s : String)
  | number (n : Nat)
deriving DecidableEq, Repr

namespace Key

def text : Key → String
  | word s => s
  | number n => toString n

end Key

inductive OptionError where
  /-- The value selects none of the choices. -/
  | unknownChoice (value : Raw) (choices : List Key)
  | notInteger (value : Raw)
  | outOfRange (value : Int) (least greatest : Option Int)
  /-- A text of digits of which one has no decimal value, such as a superscript. Nothing is
  answered to it, not even a refusal. -/
  | unreadableDigits (text : String)
deriving DecidableEq, Repr

namespace OptionError

/-- A bound in a message. -/
def bound : Option Int → String
  | some n => toString n
  | none => "None"

def message : OptionError → String
  | unknownChoice value choices =>
    "Expected one of " ++ ", ".intercalate (choices.map Key.text) ++ value.suffix
  | notInteger value => "Expected integer, got " ++ value.kind ++ value.suffix
  | outOfRange value least greatest =>
    s!"Value out of range [{bound least}, {bound greatest}]: {value}"
  | unreadableDigits _ => ""

end OptionError

namespace Raw

/-- The value that a text stands for: the number that its digits spell, or the text itself without
outer blanks and in small letters. -/
def normalize : Raw → Except OptionError Raw
  | text s =>
    let cs := Text.lowerCase (Text.trim s.toList)
    if !cs.isEmpty && cs.all Text.isDigitLike then
      match Text.decimalValue? cs with
      | some n => .ok (integer n)
      | none => .error (.unreadableDigits (String.ofList cs))
    else .ok (text (String.ofList cs))
  | v => .ok v

/-- Whether a value equals a key. -/
def matchesKey : Raw → Key → Bool
  | text s, .word t => s == t
  | integer n, .number k => n == k
  | truth b, .number k => b.toNat == k
  | float (.finite x), .number k => x.toRat == k
  | _, _ => false

end Raw

/-- The choice that a raw value selects. -/
def choose {α : Type} (choices : List (Key × α)) (v : Raw) : Except OptionError α := do
  let v ← v.normalize
  match choices.find? fun c => v.matchesKey c.1 with
  | some c => return c.2
  | none => throw (.unknownChoice v (choices.map Prod.fst))

/-- The setting that a raw value stands for. One that is a setting of the kind already is left
alone; one of another kind selects nothing. -/
def coerce {α : Type} (setting? : Raw → Option α) (choices : List (Key × α)) (v : Raw) :
    Except OptionError α :=
  match setting? v with
  | some a => .ok a
  | none => choose choices v

end Reckon
