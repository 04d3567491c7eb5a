import Reckon.Operator
import Reckon.Radix
import Reckon.Text.Classes

/-!
# Tokens

The lexical units of an expression. A name that is called and a name that stands for a number are
told apart here already, and so are the two uses of a sign: later stages never look back into the
text.

Blanks mean nothing in an expression, save that they end a name. So scanning works on what is left
without them, and every character that is left remembers its place in the text and whether a blank
stood directly before it. Such a character is a glyph.
-/

namespace Reckon

inductive Lexeme where
  | number (n : Numeral)
  | name (name : String)
  /-- A name directly in front of an opening parenthesis. -/
  | callHead (name : String)
  | operator (op : Operator)
  | leftParen | rightParen | comma
deriving DecidableEq, Repr

structure Token where
  lexeme : Lexeme
  /-- The place of its first character in the text, from 1. -/
  position : Nat
deriving DecidableEq, Repr

namespace Lexeme

/-- What the lexeme says: digits, name or symbol. -/
def text : Lexeme → String
  | number n => n.text
  | name s => s
  | callHead s => s
  | operator op => op.symbol
  | leftParen => "("
  | rightParen => ")"
  | comma => ","

/-- The text, with the radix mark of a numeral that had one. -/
def label : Lexeme → String
  | number n => n.spelling
  | l => l.text

/-- Whether an operand is due after this lexeme, so that a sign would be unary. -/
def expectsOperand : Lexeme → Bool
  | operator _ | leftParen | comma => true
  | _ => false

end Lexeme

/-- A character of a text that is no blank. -/
structure Glyph where
  char : Char
  /-- Its place in the text, from 1. -/
  position : Nat
  /-- Whether the character before it in the text is a blank. -/
  spaced : Bool
deriving DecidableEq, Repr

namespace Glyph

/-- The glyphs of a text whose first character has the given place, after a blank or not. -/
def startingAt (position : Nat) (spaced : Bool) : List Char → List Glyph
  | [] => []
  | c :: cs =>
    if Text.isBlank c then Glyph.startingAt (position + 1) true cs
    else ⟨c, position, spaced⟩ :: Glyph.startingAt (position + 1) false cs

def ofText (cs : List Char) : List Glyph :=
  Glyph.startingAt 1 false cs

end Glyph

/-- Why a text has no tokens. -/
inductive LexError.Cause where
  /-- No token starts with this character here. -/
  | unexpected (c : Char)
  /-- A decimal numeral whose exponent has no digits. -/
  | malformedNumber (body : String)
  /-- A radix mark without digits. -/
  | malformedDigits (r : Radix)
deriving DecidableEq, Repr

structure LexError where
  cause : LexError.Cause
  /-- The place of the first character of what is no token, from 1. -/
  position : Nat
deriving DecidableEq, Repr

namespace LexError

def message (e : LexError) : String :=
  match e.cause with
  | .unexpected c => s!"Unexpected character '{c}' near position {e.position}"
  | .malformedNumber body => s!"Malformed number literal '{body}'"
  | .malformedDigits r => s!"Malformed {r.adjective} literal"

end LexError

end Reckon
