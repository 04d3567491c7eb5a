import Reckon.Binary64.Arithmetic
import Reckon.EvalError

/-!
# Arithmetic that refuses what is not finite

The operations of a calculation on binary64 numbers. An infinity or a NaN is refused by the
operation that would produce it, under that operation's name, so that a calculation which ends has
met finite numbers only. The exceptions lose nothing: a sign change, the least and the greatest
argument return what they were given.
-/

namespace Reckon.Binary64.Guarded

/-- Passes a finite number on, and blames the operation for any other. -/
def check (operation : String) : Binary64 → Except EvalError Binary64
  | .finite x => .ok (.finite x)
  | _ => .error (.nonFinite operation)

def add (a b : Binary64) : Except EvalError Binary64 :=
  check "addition" (Binary64.add a b)

def sub (a b : Binary64) : Except EvalError Binary64 :=
  check "subtraction" (Binary64.sub a b)

def mul (a b : Binary64) : Except EvalError Binary64 :=
  check "multiplication" (Binary64.mul a b)

def div (a b : Binary64) : Except EvalError Binary64 :=
  check "division" (if b.isZero then .nan else Binary64.div a b)

/-- Whether a remainder is undefined because of its dividend alone. -/
def infiniteDividend : Binary64 → Binary64 → Bool
  | .infinite _, .finite _ | .infinite _, .infinite _ => true
  | _, _ => false

def mod (a b : Binary64) : Except EvalError Binary64 :=
  if b.isZero then .error (.nonFinite "modulo")
  else if infiniteDividend a b then .error (.breach .remainderOfInfinity)
  else check "modulo" (Binary64.rem a b)

def pow (a b : Binary64) : Except EvalError Binary64 :=
  check "exponentiation" (Binary64.pow a b)

/-- Applies a function into the integers to the value of a finite number. An integer from a
finite number is one again, and zero has lost its sign. -/
def toInteger (f : Rat → Int) : Binary64 → Except EvalError Binary64
  | .finite x => .ok (ofInt (f x.toRat))
  | .infinite _ => .error (.breach .roundingInfinity)
  | .nan => .error (.breach .roundingNaN)

/-- One half, the nearest number to which is itself. -/
def half : Binary64 :=
  nearest (1 / 2)

/-- The closest integer, on a tie the greater one. The distance to the integer below is itself
rounded, but never across one half. -/
def roundHalfUp : Binary64 → Except EvalError Binary64
  | .finite x =>
    let below := x.toRat.floor
    let rest := Binary64.sub (.finite x) (ofInt below)
    .ok (ofInt (if le half rest then below + 1 else below))
  | .infinite _ => .error (.breach .roundingInfinity)
  | .nan => .error (.breach .roundingNaN)

/-- Renames the failure of an operation on one number, and checks its result. -/
def named (name : String) : Except EvalError Binary64 → Except EvalError Binary64
  | .ok x => check name x
  | .error _ => .error (.nonFinite name)

def binary : BinaryOp → Binary64 → Binary64 → Except EvalError Binary64
  | .add, a, b => add a b
  | .sub, a, b => sub a b
  | .mul, a, b => mul a b
  | .div, a, b => div a b
  | .mod, a, b => mod a b
  | .caret, a, b | .doubleStar, a, b => pow a b
  | op, _, _ => .error (.integerOnlyOperator (.binary op))

def unary : UnaryOp → Binary64 → Except EvalError Binary64
  | .minus, a => .ok a.neg
  | .plus, a => .ok a
  | .complement, _ => .error (.integerOnlyOperator (.unary .complement))

/-- A function of one number. The others have none. -/
def unaryFunction? : Function → Option (Binary64 → Except EvalError Binary64)
  | .sin => some fun x => .ok x.sin
  | .cos => some fun x => .ok x.cos
  | .tan => some fun x => .ok x.tan
  | .asin => some fun x => .ok x.asin
  | .acos => some fun x => .ok x.acos
  | .atan => some fun x => .ok x.atan
  | .sqrt => some fun x => .ok x.sqrt
  | .abs => some fun x => .ok x.abs
  | .floor => some (toInteger Rat.floor)
  | .ceil => some (toInteger Rat.ceil)
  | .round => some roundHalfUp
  | .log => some fun x => .ok x.log10
  | .ln => some fun x => .ok x.ln
  | .min | .max | .xor => none

def call : Function → List Binary64 → Except EvalError Binary64
  | .min, a :: as => .ok (as.foldl least a)
  | .max, a :: as => .ok (as.foldl greatest a)
  | fn, args =>
    match unaryFunction? fn, args with
    | some f, [a] => named fn.name (f a)
    | _, _ => .error (if fn.integerOnly then .integerOnlyFunction fn else .arity fn args.length)

end Reckon.Binary64.Guarded
