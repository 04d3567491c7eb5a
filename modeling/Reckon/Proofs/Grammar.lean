import Reckon.Expr.Basic
import Reckon.Token.Basic

/-!
# The grammar of expressions

Nine strata, one above the other. A phrase of a binary stratum is a chain of phrases of the next
tighter one, set apart by the operators of the stratum; every binary stratum groups its chains from
the left except exponentiation, which groups from the right. Above them stand the prefix operators,
and above these the primaries: numerals, names, groups and calls.

`Phrase s ls e` says that the lexemes `ls` are a phrase of the stratum `s` and that `e` is the tree
they stand for. Parentheses and strata leave no trace in the tree, and the argument list of a call
is one rule: with no arguments at all it reads `f()`.

The strata name their operators themselves. That the ranks of the operator table order them in just
this way is a fact to be proved (`precedence_of_mem_operators`), not a definition.
-/

namespace Reckon

/-- The nonterminals of the grammar, the loosest first. -/
inductive Stratum where
  | or | xor | and | shift | sum | product | power | unary | primary
deriving DecidableEq, Repr

namespace Stratum

/-- The stratum whose phrases are the operands of this one. -/
def tighter? : Stratum → Option Stratum
  | or => some xor
  | xor => some and
  | and => some shift
  | shift => some sum
  | sum => some product
  | product => some power
  | power => some unary
  | unary => some primary
  | primary => none

/-- The operators that stand between the operands of a stratum. -/
def operators : Stratum → List BinaryOp
  | or => [.bitOr]
  | xor => [.bitXor]
  | and => [.bitAnd]
  | shift => [.shiftLeft, .shiftRight]
  | sum => [.add, .sub]
  | product => [.mul, .div, .mod]
  | power => [.caret, .doubleStar]
  | unary | primary => []

end Stratum

/-- Rows of lexemes with a comma between each and the next. -/
def commaSeparated : List (List Lexeme) → List Lexeme
  | [] => []
  | [ls] => ls
  | ls :: rest => ls ++ .comma :: commaSeparated rest

inductive Phrase : Stratum → List Lexeme → Expr → Prop
  | lift {s t : Stratum} {ls : List Lexeme} {e : Expr} :
      s.tighter? = some t → Phrase t ls e → Phrase s ls e
  | leftBinary {s t : Stratum} {op : BinaryOp} {ls rs : List Lexeme} {l r : Expr} :
      s ≠ .power → op ∈ s.operators → s.tighter? = some t → Phrase s ls l → Phrase t rs r →
      Phrase s (ls ++ .operator (.binary op) :: rs) (.binary op l r)
  | rightBinary {op : BinaryOp} {ls rs : List Lexeme} {l r : Expr} :
      op ∈ Stratum.power.operators → Phrase .unary ls l → Phrase .power rs r →
      Phrase .power (ls ++ .operator (.binary op) :: rs) (.binary op l r)
  | unary {op : UnaryOp} {ls : List Lexeme} {e : Expr} :
      Phrase .unary ls e → Phrase .unary (.operator (.unary op) :: ls) (.unary op e)
  | number {n : Numeral} : Phrase .primary [.number n] (.number n)
  | name {s : String} : Phrase .primary [.name s] (.name s)
  | group {ls : List Lexeme} {e : Expr} :
      Phrase .or ls e → Phrase .primary (.leftParen :: (ls ++ [.rightParen])) e
  | call {f : String} {args : List (List Lexeme × Expr)} :
      (∀ a ∈ args, Phrase .or a.1 a.2) →
      Phrase .primary
        (.callHead f :: .leftParen :: (commaSeparated (args.map Prod.fst) ++ [.rightParen]))
        (.call f (args.map Prod.snd))

end Reckon
