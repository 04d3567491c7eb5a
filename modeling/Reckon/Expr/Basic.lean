import Reckon.Arithmetic
import Reckon.Instruction

/-!
# Expressions

An expression as a tree. Its program lists the tree in postfix order; its value is found by
evaluating the operands from left to right and then the node above them, with no stack in between.
The calculator itself never builds a tree: it goes from tokens to a program at once. The tree says
what that program means.
-/

namespace Reckon

inductive Expr where
  | number (n : Numeral)
  | name (name : String)
  | unary (op : UnaryOp) (operand : Expr)
  | binary (op : BinaryOp) (left right : Expr)
  | call (name : String) (args : List Expr)

namespace Expr

mutual

/-- The postfix listing. -/
def program : Expr → Program
  | number n => [.number n]
  | name s => [.constant s]
  | unary op e => e.program ++ [.operator (.unary op)]
  | binary op l r => l.program ++ (r.program ++ [.operator (.binary op)])
  | call s args => programs args ++ [.call s args.length]

/-- The listings of several expressions in a row. -/
def programs : List Expr → Program
  | [] => []
  | e :: es => e.program ++ programs es

end

variable {α : Type}

mutual

/-- The value over an arithmetic, with the remark. What a node consists of is resolved only after
its operands have values. A remark on a numeral belongs to the whole expression; of several the last
one is kept. -/
def evaluate (A : Arithmetic α) : Expr → Except EvalError (α × Option String)
  | number n => A.number n
  | name s => do return (← A.constant s, none)
  | unary op e => do
    let (a, note) ← e.evaluate A
    let apply ← A.unary op
    return (← apply a, note)
  | binary op l r => do
    let (a, earlier) ← l.evaluate A
    let (b, later) ← r.evaluate A
    let apply ← A.binary op
    return (← apply a b, later <|> earlier)
  | call s args => do
    let (as, note) ← evaluateAll A args
    let apply ← A.function s args.length
    return (← apply as, note)

/-- The values of several expressions, the first one first. -/
def evaluateAll (A : Arithmetic α) : List Expr → Except EvalError (List α × Option String)
  | [] => .ok ([], none)
  | e :: es => do
    let (a, earlier) ← e.evaluate A
    let (as, later) ← evaluateAll A es
    return (a :: as, later <|> earlier)

end

end Expr

end Reckon
