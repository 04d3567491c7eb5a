import Reckon.Instruction
import Reckon.Token.Basic

/-!
# From infix to postfix

Operands go straight to the program. Operators, parentheses and call heads wait on a stack until
it is clear what they apply to: an operator until one that binds less comes along, a parenthesis
until it is closed, a call head until the parenthesis after it is closed.

The number of arguments of each call is counted on a second stack, which has an entry for every call
head met and not yet called. Where each call head stands in front of its parenthesis the two stacks
agree on which call is meant. Whether operands and operators alternate is not checked here, nor
anywhere else; where they do not balance, the machine cannot reduce the program to one value.
-/

namespace Reckon

/-- Why tokens do not group. -/
inductive GroupingError where
  /-- The text is blank. -/
  | emptyExpression
  /-- A comma where no parenthesis is open. -/
  | misplacedComma
  /-- A comma in a group that is not the argument list of a call. -/
  | commaOutsideCall
  /-- A closing parenthesis without an opening one, or the other way round. -/
  | mismatchedParens
  /-- The end was reached in a call. -/
  | mismatchedCall
  /-- A group with nothing in it. -/
  | emptyParens
deriving DecidableEq, Repr

namespace GroupingError

def message : GroupingError → String
  | emptyExpression => "Empty expression"
  | misplacedComma => "Misplaced comma or mismatched parentheses"
  | commaOutsideCall => "Comma outside a function call"
  | mismatchedParens => "Mismatched parentheses"
  | mismatchedCall => "Mismatched function call"
  | emptyParens => "Empty parentheses"

end GroupingError

namespace Yard

/-- What waits on the stack. -/
inductive Waiting where
  | operator (op : Operator)
  | callHead (name : String)
  | paren
deriving DecidableEq, Repr

namespace Waiting

def isParen : Waiting → Bool
  | paren => true
  | _ => false

/-- What an entry becomes when it leaves the stack for the program. -/
def release : Waiting → List Instruction
  | operator op => [.operator op]
  | callHead name => [.stray name]
  | paren => []

end Waiting

structure State where
  /-- The program so far, the last instruction first. -/
  output : List Instruction := []
  stack : List Waiting := []
  /-- The number of arguments of each open call, counted so far. -/
  counts : List Nat := []
  /-- Whether the last lexeme was an opening parenthesis. -/
  justOpened : Bool := false
deriving DecidableEq, Repr

/-- Adds entries of the stack to the program, in the order in which they leave. -/
def emit (ws : List Waiting) (output : List Instruction) : List Instruction :=
  (ws.flatMap Waiting.release).reverse ++ output

/-- Whether an entry is an operator that is applied before `op` is stacked. -/
def appliedBefore (op : Operator) : Waiting → Bool
  | .operator waiting => waiting.yieldsTo op
  | _ => false

/-- Releases everything down to the innermost open parenthesis. -/
def unwind (s : State) : State :=
  { s with
    output := emit (s.stack.takeWhile (!·.isParen)) s.output
    stack := s.stack.dropWhile (!·.isParen) }

/-- One more argument in the innermost call. -/
def countArgument : List Nat → List Nat
  | n :: ns => (n + 1) :: ns
  | [] => []

def comma (s : State) : Except GroupingError State :=
  let s := unwind s
  match s.stack with
  | [] => .error .misplacedComma
  | _ :: .callHead _ :: _ => .ok { s with counts := countArgument s.counts, justOpened := false }
  | _ => .error .commaOutsideCall

def close (s : State) : Except GroupingError State :=
  let wasEmpty := s.justOpened
  let s := unwind s
  match s.stack with
  | [] => .error .mismatchedParens
  | _ :: .callHead name :: stack =>
    let argc := if wasEmpty then 0 else s.counts.headD 1
    .ok ⟨.call name argc :: s.output, stack, s.counts.tail, false⟩
  | _ :: stack =>
    if wasEmpty then .error .emptyParens else .ok { s with stack, justOpened := false }

/-- Takes in one lexeme. -/
def step (s : State) : Lexeme → Except GroupingError State
  | .number n => .ok { s with output := .number n :: s.output, justOpened := false }
  | .name name => .ok { s with output := .constant name :: s.output, justOpened := false }
  | .callHead name =>
    .ok { s with stack := .callHead name :: s.stack, counts := 1 :: s.counts, justOpened := false }
  | .operator op =>
    .ok { s with
      output := emit (s.stack.takeWhile (appliedBefore op)) s.output
      stack := .operator op :: s.stack.dropWhile (appliedBefore op)
      justOpened := false }
  | .leftParen => .ok { s with stack := .paren :: s.stack, justOpened := true }
  | .rightParen => close s
  | .comma => comma s

/-- Releases what still waits at the end, where only operators may. -/
def drain : List Waiting → Except GroupingError Program
  | [] => .ok []
  | .operator op :: ws => do return .operator op :: (← drain ws)
  | .paren :: _ => .error .mismatchedParens
  | .callHead _ :: _ => .error .mismatchedCall

end Yard

/-- The program of a row of lexemes. -/
def Program.ofLexemes (ls : List Lexeme) : Except GroupingError Program := do
  let s ← ls.foldlM Yard.step {}
  return s.output.reverse ++ (← Yard.drain s.stack)

end Reckon
