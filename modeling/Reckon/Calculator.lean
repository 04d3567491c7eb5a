import Reckon.Arithmetic
import Reckon.Machine
import Reckon.Program.OfLexemes
import Reckon.Token.Scan
import Reckon.View

/-!
# The calculator

A text is scanned, put into postfix order and run, by the arithmetic that the options name. The same
text under the same options always gives the same result or the same fault.
-/

namespace Reckon

/-- What is wrong with a text or with the options it is evaluated under, by the stage that finds
it. -/
inductive Fault where
  | lexical (e : LexError)
  | grouping (e : GroupingError)
  | evaluation (e : EvalError)
  | option (e : OptionError)
deriving DecidableEq, Repr

namespace Fault

def message : Fault → String
  | lexical e => e.message
  | grouping e => e.message
  | evaluation e => e.message
  | option e => e.message

end Fault

namespace Program

/-- The result of a program under the given options. -/
def evaluate (o : Options) (p : Program) : Except EvalError Result :=
  match o.mode with
  | .float => do
    let (value, note) ← Machine.evaluate Arithmetic.floats p
    return .float value note
  | .integer => do
    let (value, _) ← Machine.evaluate (Arithmetic.words o.wordFormat) p
    return .word (o.wordFormat.residue value) o

end Program

/-- Whether a text has nothing but blanks. -/
def isBlankText (text : String) : Bool :=
  text.toList.all Text.isBlank

/-- The tokens of a text under the given options. -/
def scan (o : Options) (text : String) : Except Fault (List Token) :=
  (tokenize o.inputBase.radix text).mapError Fault.lexical

/-- The program of a row of tokens. -/
def group (tokens : List Token) : Except Fault Program :=
  (Program.ofLexemes (tokens.map Token.lexeme)).mapError Fault.grouping

/-- The result of a text under the given options. -/
def evaluate (o : Options) (text : String) : Except Fault Result := do
  if isBlankText text then throw (.grouping .emptyExpression)
  let p ← group (← scan o text)
  (p.evaluate o).mapError Fault.evaluation

/-- A calculator with its options. It keeps nothing else. -/
structure Calculator where
  options : Options := {}
deriving DecidableEq, Repr

namespace Calculator

/-- A calculator with options from raw values, and the defaults for the rest. -/
def ofChanges (c : Changes) : Except Fault Calculator :=
  (Options.ofChanges c).mapError Fault.option |>.map Calculator.mk

/-- A calculator with some of its options changed. -/
def configure (k : Calculator) (c : Changes) : Except Fault Calculator :=
  (k.options.change c).mapError Fault.option |>.map Calculator.mk

def evaluate (k : Calculator) (text : String) : Except Fault Result :=
  Reckon.evaluate k.options text

/-- The view of a result, whichever calculator it comes from. -/
def view (k : Calculator) (r : Result) : View :=
  r.view k.options.display

/-- The view of what a text evaluates to. -/
def solve (k : Calculator) (text : String) : Except Fault View := do
  return k.view (← k.evaluate text)

end Calculator

end Reckon
