/-!
# Operators

Fifteen operators in eight ranks. The binary ones bind from `|`, the loosest, to exponentiation, the
tightest; the three prefix ones bind tighter still. Exponentiation has two spellings that mean
the same, and each keeps its own in messages.
-/

namespace Reckon

/-- An operator between two operands. -/
inductive BinaryOp where
  | add | sub | mul | div | mod
  /-- Exponentiation, spelled `^`. -/
  | caret
  /-- Exponentiation, spelled `**`. -/
  | doubleStar
  | shiftLeft | shiftRight | bitAnd | bitXor | bitOr
deriving DecidableEq, Repr

/-- An operator in front of its operand. -/
inductive UnaryOp where
  | minus | plus | complement
deriving DecidableEq, Repr

inductive Operator where
  | binary (op : BinaryOp)
  | unary (op : UnaryOp)
deriving DecidableEq, Repr

/-- The side from which operators of one rank are grouped. -/
inductive Associativity where
  | left | right
deriving DecidableEq, Repr

namespace BinaryOp

def symbol : BinaryOp → String
  | add => "+"
  | sub => "-"
  | mul => "*"
  | div => "/"
  | mod => "%"
  | caret => "^"
  | doubleStar => "**"
  | shiftLeft => "<<"
  | shiftRight => ">>"
  | bitAnd => "&"
  | bitXor => "xor"
  | bitOr => "|"

def precedence : BinaryOp → Nat
  | add | sub => 10
  | mul | div | mod => 20
  | caret | doubleStar => 30
  | shiftLeft | shiftRight => 9
  | bitAnd => 8
  | bitXor => 7
  | bitOr => 6

def associativity : BinaryOp → Associativity
  | caret | doubleStar => .right
  | _ => .left

/-- Whether the operator works on bits, and so on words alone. -/
def integerOnly : BinaryOp → Bool
  | shiftLeft | shiftRight | bitAnd | bitXor | bitOr => true
  | _ => false

end BinaryOp

namespace UnaryOp

/-- The name of a prefix operator. A sign has a `u` in front, which tells it from the binary one. -/
def symbol : UnaryOp → String
  | minus => "u-"
  | plus => "u+"
  | complement => "~"

/-- Whether the operator works on bits, and so on words alone. -/
def integerOnly : UnaryOp → Bool
  | complement => true
  | _ => false

end UnaryOp

namespace Operator

def symbol : Operator → String
  | binary op => op.symbol
  | unary op => op.symbol

def precedence : Operator → Nat
  | binary op => op.precedence
  | unary _ => 40

def associativity : Operator → Associativity
  | binary op => op.associativity
  | unary _ => .right

/-- The number of operands. -/
def arity : Operator → Nat
  | binary _ => 2
  | unary _ => 1

def integerOnly : Operator → Bool
  | binary op => op.integerOnly
  | unary op => op.integerOnly

/-- All operators. -/
def all : List Operator :=
  [.add, .sub, .mul, .div, .mod, .caret, .doubleStar, .shiftLeft, .shiftRight, .bitAnd, .bitXor,
    .bitOr].map binary ++ [.minus, .plus, .complement].map unary

def ofSymbol? (s : String) : Option Operator :=
  all.find? (·.symbol == s)

theorem ofSymbol?_symbol (op : Operator) : ofSymbol? op.symbol = some op := by
  rcases op with op | op <;> cases op <;> decide

/-- Whether an operator that waits on the stack is applied before `incoming` joins it: it binds
tighter, or equally tight and operators of that rank group from the left. -/
def yieldsTo (waiting incoming : Operator) : Bool :=
  match incoming.associativity with
  | .left => incoming.precedence ≤ waiting.precedence
  | .right => incoming.precedence < waiting.precedence

end Operator

end Reckon
