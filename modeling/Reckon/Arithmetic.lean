import Reckon.Binary64.Guarded
import Reckon.Binary64.Text
import Reckon.Function
import Reckon.Word

/-!
# Arithmetics

The stack machine does not depend on the kind of numbers it runs on. What it needs to know of its
values is collected in a structure: how numerals, names and operators are to be understood. There
are two such arithmetics.

In that of words, numerals are reduced to the width as they are read. Fractional numerals, constants
and most functions have no meaning there. In that of binary64 numbers, decimal numerals are read as
the nearest number. Numerals in another radix denote integers, which are rounded too, but with a
remark if they are beyond the range where integers are told apart.
-/

namespace Reckon

/-- The meaning of numerals, names and operators over values of one kind. Names and argument counts
are resolved before operands are looked at, hence the functions that return functions. -/
structure Arithmetic (α : Type) where
  /-- The value of a numeral, and a remark on it. -/
  number : Numeral → Except EvalError (α × Option String)
  constant : String → Except EvalError α
  function : String → Nat → Except EvalError (List α → Except EvalError α)
  unary : UnaryOp → Except EvalError (α → Except EvalError α)
  binary : BinaryOp → Except EvalError (α → α → Except EvalError α)

/-- The value of an integral numeral in its radix. A digit that the radix lacks is an error. -/
def Numeral.integer (n : Numeral) : Except EvalError Nat :=
  match n.radix.value? n.text.toList with
  | none => .error (.invalidDigits n)
  | some value => if n.text.isEmpty then .error (.breach (.unreadableNumeral n.text)) else .ok value

/-- The remark on an integer that a binary64 number may fail to represent. -/
def inexactNote : String :=
  "Precision risk: integer exceeds 2^53-1."

namespace Arithmetic

/-- The arithmetic of the words of a format. -/
def words (f : Word.Format) : Arithmetic Int where
  number n :=
    if n.fractional then .error (.fractionalNumeral n)
    else do return (f.residue (← n.integer), none)
  constant name :=
    .error <| match Constant.ofName? name with
      | some c => .floatOnlyConstant c.name
      | none => .unknownIdentifier name
  function name argc :=
    match Function.ofName? name with
    | none => .error (.unknownFunction name)
    | some fn =>
      if !fn.onWords then .error (.notOnWords fn)
      else if !fn.accepts argc then .error (.arity fn argc)
      else .ok (f.call fn)
  unary op := .ok fun a => .ok (f.unary op a)
  binary op := .ok (f.binary op)

/-- Whether a numeral is read as a decimal and not as an integer in its radix. -/
def readAsDecimal (n : Numeral) : Bool :=
  n.fractional || (n.radix == .dec && !n.marked)

def floatNumber (n : Numeral) : Except EvalError (Binary64 × Option String) :=
  if readAsDecimal n then
    match Binary64.ofWritten? n.text.toList with
    | some x => do return (← Binary64.Guarded.check "literal" x, none)
    | none => .error (.breach (.unreadableNumeral n.text))
  else do
    let exact ← n.integer
    match Binary64.ofInt exact with
    | .finite x =>
      return (.finite x, if Binary64.maxSafeInteger < exact then some inexactNote else none)
    | _ => throw (.tooLarge n)

/-- The arithmetic of binary64 numbers. -/
def floats : Arithmetic Binary64 where
  number := floatNumber
  constant name :=
    match Constant.ofName? name with
    | some c => .ok c.value
    | none => .error (.unknownIdentifier name)
  function name argc :=
    match Function.ofName? name with
    | none => .error (.unknownFunction name)
    | some fn =>
      if fn.integerOnly then .error (.integerOnlyFunction fn)
      else if !fn.accepts argc then .error (.arity fn argc)
      else .ok (Binary64.Guarded.call fn)
  unary op :=
    if op.integerOnly then .error (.integerOnlyOperator (.unary op))
    else .ok (Binary64.Guarded.unary op)
  binary op :=
    if op.integerOnly then .error (.integerOnlyOperator (.binary op))
    else .ok (Binary64.Guarded.binary op)

end Arithmetic

end Reckon
