import Reckon.Operator
import Reckon.Radix

/-!
# Instructions of a stack machine

A program is an expression in postfix order: operands stand before what consumes them, and neither
parentheses nor commas are left.
-/

namespace Reckon

inductive Instruction where
  | number (n : Numeral)
  | constant (name : String)
  /-- A call of the named function on the last `argc` values. -/
  | call (name : String) (argc : Nat)
  | operator (op : Operator)
  /-- A call head that lost its parentheses. No text yields one, and no machine runs it. -/
  | stray (name : String)
deriving DecidableEq, Repr

/-- Instructions in the order in which they are run. -/
abbrev Program := List Instruction

namespace Instruction

/-- How an instruction is listed. -/
def label : Instruction → String
  | number n => n.spelling
  | constant name => name
  | call name argc => s!"{name}/{argc}"
  | operator op => op.symbol
  | stray name => name

end Instruction

end Reckon
