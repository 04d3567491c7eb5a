import Reckon.Radix

/-!
# Settings

Three of the options are chosen among a few settings: the kind of arithmetic, the radix of integers
without a mark, and the radix in which an answer is shown.
-/

namespace Reckon

/-- The kind of arithmetic. -/
inductive Mode where
  | float | integer
deriving DecidableEq, Repr

namespace Mode

def name : Mode → String
  | float => "float"
  | integer => "int"

/-- How a message quotes the setting itself. -/
def quoted : Mode → String
  | float => "Mode.FLOAT"
  | integer => "Mode.INTEGER"

end Mode

/-- How a message quotes a radix that was set, after the option it was set for. -/
def Radix.quoted : Radix → String
  | bin => "BIN"
  | oct => "OCT"
  | dec => "DEC"
  | hex => "HEX"

/-- The radix of integers without a mark. -/
inductive InputBase where
  /-- Decimal, because nothing else was asked for. -/
  | auto
  | fixed (r : Radix)
deriving DecidableEq, Repr

namespace InputBase

def radix : InputBase → Radix
  | auto => .dec
  | fixed r => r

def name : InputBase → String
  | auto => "auto"
  | fixed r => toString r.base

/-- How a message quotes the setting itself. -/
def quoted : InputBase → String
  | auto => "InputBase.AUTO"
  | fixed r => "InputBase." ++ r.quoted

end InputBase

/-- The radix in which an answer is shown first. -/
inductive DisplayBase where
  | only (r : Radix)
  /-- All of them, the decimal one first. -/
  | all
deriving DecidableEq, Repr

namespace DisplayBase

def name : DisplayBase → String
  | only r => toString r.base
  | all => "all"

/-- How a message quotes the setting itself. -/
def quoted : DisplayBase → String
  | only r => "DisplayBase." ++ r.quoted
  | all => "DisplayBase.ALL"

end DisplayBase

end Reckon
