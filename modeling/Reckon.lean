import Reckon.Text.Classes
import Reckon.Text.LowerCase
import Reckon.Radix
import Reckon.Operator
import Reckon.Function
import Reckon.Word
import Reckon.Binary64.Arithmetic
import Reckon.Binary64.Text
import Reckon.Arithmetic
import Reckon.Machine
import Reckon.Expr.Machine
import Reckon.Token.Basic
import Reckon.Token.Scan
import Reckon.Program.OfLexemes
import Reckon.Options.Basic
import Reckon.View
import Reckon.Session
import Reckon.CommandLine.Run
import Reckon.Main
import Reckon.Proofs.Outcome
import Reckon.Proofs.Grammar
import Reckon.Proofs.Precedence
import Reckon.Proofs.Machine
import Reckon.Proofs.Postfix
import Reckon.Proofs.StackFault
import Reckon.Proofs.Word.Residue
import Reckon.Proofs.Word.Bits
import Reckon.Proofs.Readings
import Reckon.Proofs.TreeValue
import Reckon.Proofs.Places
import Reckon.Proofs.Derivation
import Reckon.Proofs.Balance
import Reckon.Proofs.Unbounded
import Reckon.Proofs.Token.Reading
import Reckon.Proofs.Token.Spelling
import Reckon.Proofs.Enclosed
import Reckon.Proofs.Compound
import Reckon.Proofs.Radix.Digits
import Reckon.Proofs.Token.Numeral
import Reckon.Proofs.ReadBack
import Reckon.Proofs.Infix
import Reckon.Proofs.Text.Ascii
import Reckon.Proofs.Token.Lossless
import Reckon.Proofs.Token.Lexed
import Reckon.Proofs.Emission
import Reckon.Proofs.Faults
import Reckon.Proofs.CommandLine
import Reckon.Proofs.Token.Shape
import Reckon.Proofs.Token.Invariant
import Reckon.Proofs.Token.Spread
import Reckon.Proofs.Signedness
import Reckon.Proofs.Token.LetterCase
import Reckon.Proofs.LetterCase
import Reckon.Proofs.Binary64.Nearest
import Reckon.Proofs.Binary64.Integers
import Reckon.Proofs.Binary64.Decimals
import Reckon.Proofs.Token.Decimal
import Reckon.Proofs.Binary64.Layout
import Reckon.Proofs.Modes
import Reckon.Proofs.FloatText
import Reckon.Proofs.Finiteness
import Reckon.Proofs.Changes
import Reckon.Proofs.Parens
import Reckon.Proofs.Nesting
import Reckon.Proofs.Inventory
import Reckon.Proofs.Word.Power
import Reckon.Proofs.Word.Division
import Reckon.Proofs.Literal
import Reckon.Proofs.Token.CutShort
import Reckon.Proofs.Token.Malformed
import Reckon.Proofs.Token.Unreadable
import Reckon.Proofs.YardNumerals
import Reckon.Proofs.Token.InputRadix
import Reckon.Proofs.InputBase
import Reckon.Proofs.Text.Groups
import Reckon.Proofs.DigitGroups
import Reckon.Proofs.PrecisionNote
import Reckon.Proofs.Binary64.HalfUp
import Reckon.Proofs.Text.Digits
import Reckon.Proofs.Refusals
