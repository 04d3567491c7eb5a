import Reckon.Binary64.Basic

/-!
# Functions and constants

The sixteen names that can be called, and the three that stand for numbers. What a function does
depends on the arithmetic; here is what is known of it by name alone: how many arguments it takes
and which arithmetic has it. A constant is the binary64 number nearest to its real value.
-/

namespace Reckon

inductive Function where
  | sin | cos | tan | asin | acos | atan | sqrt | abs | floor | ceil | round
  /-- The logarithm to base ten. -/
  | log
  /-- The natural logarithm. -/
  | ln
  | min | max
  /-- Exclusive or of two words. -/
  | xor
deriving DecidableEq, Repr

namespace Function

def name : Function → String
  | sin => "sin"
  | cos => "cos"
  | tan => "tan"
  | asin => "asin"
  | acos => "acos"
  | atan => "atan"
  | sqrt => "sqrt"
  | abs => "abs"
  | floor => "floor"
  | ceil => "ceil"
  | round => "round"
  | log => "log"
  | ln => "ln"
  | min => "min"
  | max => "max"
  | xor => "xor"

def all : List Function :=
  [sin, cos, tan, asin, acos, atan, sqrt, abs, floor, ceil, round, log, ln, min, max, xor]

def ofName? (s : String) : Option Function :=
  all.find? (·.name == s)

theorem ofName?_name (f : Function) : ofName? f.name = some f := by
  cases f <;> decide

/-- The number of arguments, `none` if any number from one on will do. -/
def arity? : Function → Option Nat
  | min | max => none
  | xor => some 2
  | _ => some 1

def variadic (f : Function) : Bool :=
  f.arity?.isNone

/-- Whether the function is for words alone. -/
def integerOnly : Function → Bool
  | xor => true
  | _ => false

/-- Whether words have the function. -/
def onWords : Function → Bool
  | abs | min | max | xor => true
  | _ => false

/-- Whether the function can be called with this many arguments. -/
def accepts (f : Function) (argc : Nat) : Bool :=
  match f.arity? with
  | some n => argc == n
  | none => 1 ≤ argc

/-- The number of arguments in words, for a message. -/
def expectation (f : Function) : String :=
  match f.arity? with
  | some n => toString n
  | none => "at least 1"

end Function

inductive Constant where
  | pi
  /-- The full turn, twice `pi`. -/
  | tau
  /-- The base of the natural logarithm. -/
  | e
deriving DecidableEq, Repr

namespace Constant

def name : Constant → String
  | pi => "pi"
  | tau => "tau"
  | e => "e"

def ofName? (s : String) : Option Constant :=
  [pi, tau, e].find? (·.name == s)

theorem ofName?_name (c : Constant) : ofName? c.name = some c := by
  cases c <;> decide

def value : Constant → Binary64
  | pi => .ofBits 0x400921FB54442D18
  | tau => .ofBits 0x401921FB54442D18
  | e => .ofBits 0x4005BF0A8B145769

end Constant

end Reckon
