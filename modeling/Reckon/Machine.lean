import Reckon.Arithmetic
import Reckon.Instruction

/-!
# The stack machine

One machine runs programs over any arithmetic. Each instruction is first resolved by the arithmetic
(does the name exist, is it for these values, does the count of arguments fit), then its operands
are taken from the stack, and only then is anything computed: of several faults of one instruction
the first in this order is reported.
-/

namespace Reckon

namespace Machine

/-- The values at hand, the last one first, and the latest remark. -/
structure State (α : Type) where
  stack : List α := []
  note : Option String := none
deriving DecidableEq, Repr

variable {α : Type}

/-- Splits the last `count` values off a stack and puts them into the order in which they came. -/
def take (consumer : String) (count : Nat) (stack : List α) :
    Except EvalError (List α × List α) :=
  if stack.length < count then .error (.missingOperands consumer stack.length)
  else .ok ((stack.take count).reverse, stack.drop count)

/-- Runs one instruction. -/
def step (A : Arithmetic α) (s : State α) : Instruction → Except EvalError (State α)
  | .number n => do
    let (value, note) ← A.number n
    return ⟨value :: s.stack, note <|> s.note⟩
  | .constant name => do
    let value ← A.constant name
    return { s with stack := value :: s.stack }
  | .call name argc => do
    let apply ← A.function name argc
    let (args, rest) ← take name argc s.stack
    let value ← apply args
    return { s with stack := value :: rest }
  | .operator (.unary op) => do
    let apply ← A.unary op
    match s.stack with
    | a :: rest =>
      let value ← apply a
      return { s with stack := value :: rest }
    | [] => throw (.missingOperands op.symbol 0)
  | .operator (.binary op) => do
    let apply ← A.binary op
    match s.stack with
    | b :: a :: rest =>
      let value ← apply a b
      return { s with stack := value :: rest }
    | short => throw (.missingOperands op.symbol short.length)
  | .stray name => throw (.breach (.strayCallHead name))

/-- Runs a program from a given state. -/
def run (A : Arithmetic α) (s : State α) (p : Program) : Except EvalError (State α) :=
  p.foldlM (step A) s

@[simp]
theorem run_nil (A : Arithmetic α) (s : State α) : run A s [] = .ok s := rfl

theorem run_cons (A : Arithmetic α) (s : State α) (i : Instruction) (p : Program) :
    run A s (i :: p) = step A s i >>= fun s => run A s p := rfl

/-- A program runs piece by piece. -/
theorem run_append (A : Arithmetic α) (s : State α) (p q : Program) :
    run A s (p ++ q) = run A s p >>= fun s => run A s q := by
  simp [run]

/-- The one value that a run leaves, with the remark. -/
def result (s : State α) : Except EvalError (α × Option String) :=
  match s.stack with
  | [value] => .ok (value, s.note)
  | stack => .error (.unbalanced stack.length)

/-- Runs a program from the empty stack to its one value. -/
def evaluate (A : Arithmetic α) (p : Program) : Except EvalError (α × Option String) := do
  result (← run A {} p)

end Machine

end Reckon
