import Reckon.Function
import Reckon.Operator
import Reckon.Radix

/-!
# Why an evaluation fails

Each constructor is one cause, and `EvalError.message` is the only place that words it. A `Breach`
is of another kind: it says that an operation was called outside the domain that its callers keep
to. Programs that come from a text never commit one.
-/

namespace Reckon

/-- A call outside the domain of an operation. -/
inductive Breach where
  /-- A call head that has lost its parentheses was run as an operator. -/
  | strayCallHead (name : String)
  /-- A numeral whose text is no number at all. -/
  | unreadableNumeral (text : String)
  /-- A divisor that is not zero, but whose signed reading is. -/
  | vanishingDivisor
  /-- The remainder of an infinite dividend. -/
  | remainderOfInfinity
  /-- An infinity that was to be rounded to an integer. -/
  | roundingInfinity
  /-- A NaN that was to be rounded to an integer. -/
  | roundingNaN
deriving DecidableEq, Repr

inductive EvalError where
  /-- Fewer values than `consumer` takes; `depth` is their number. -/
  | missingOperands (consumer : String) (depth : Nat)
  /-- The end was reached with `depth` values, and not with one. -/
  | unbalanced (depth : Nat)
  | unknownIdentifier (name : String)
  | unknownFunction (name : String)
  /-- A function was called with the wrong number of arguments. -/
  | arity (f : Function) (got : Nat)
  | integerOnlyFunction (f : Function)
  | integerOnlyOperator (op : Operator)
  | notOnWords (f : Function)
  | floatOnlyConstant (name : String)
  | invalidDigits (n : Numeral)
  | fractionalNumeral (n : Numeral)
  | tooLarge (n : Numeral)
  | divisionByZero (operation : String)
  | negativeExponent
  /-- The named operation gave an infinity or a NaN. -/
  | nonFinite (operation : String)
  | breach (b : Breach)
deriving DecidableEq, Repr

namespace EvalError

/-- The wording of an error. A breach has none: it is not an answer of the calculator. -/
def message : EvalError → String
  | missingOperands consumer depth =>
    s!"Invalid expression: '{consumer}' is missing operands: {depth}"
  | unbalanced depth => s!"Invalid expression: {depth}"
  | unknownIdentifier name => s!"Unknown identifier '{name}'"
  | unknownFunction name => s!"Unknown function '{name}'"
  | arity f got => s!"Function '{f.name}' expects {f.expectation} args, got {got}"
  | integerOnlyFunction f => s!"Function '{f.name}' is integer-only"
  | integerOnlyOperator op => s!"Operator '{op.symbol}' is integer-only"
  | notOnWords f => s!"Function '{f.name}' is not available in integer mode"
  | floatOnlyConstant name => s!"Constant '{name}' is float-only"
  | invalidDigits n => s!"Invalid digits for base {n.radix.base}: {n.text}"
  | fractionalNumeral n => s!"Only integers allowed without prefix in integer mode: {n.text}"
  | tooLarge n => s!"Literal too large for float mode: {n.spelling}"
  | divisionByZero operation => s!"{operation} by zero"
  | negativeExponent => "Negative exponent not allowed in integer mode"
  | nonFinite operation => s!"Computation produced a non-finite result: {operation}"
  | breach _ => ""

end EvalError

end Reckon
