import Reckon.Calculator
import Reckon.CommandLine.Invocation

/-!
# What the command line prints

The view of the result goes to the standard output, line by line. Everything else is for the error
output: the log, if it was asked for, then the note on the result or the fault.
-/

namespace Reckon.Text

/-- The last `width` hexadecimal digits of a number, in small letters. -/
def hexDigits (width n : Nat) : List Char :=
  (List.range width).reverse.map fun i => Nat.digitChar (n / Nat.pow 16 i % 16)

/-- A code point in two, four or eight hexadecimal digits. -/
def spellOut (n : Nat) : List Char :=
  if n < 0x100 then '\\' :: 'x' :: hexDigits 2 n
  else if n < 0x10000 then '\\' :: 'u' :: hexDigits 4 n
  else '\\' :: 'U' :: hexDigits 8 n

/-- One character between the quotes. -/
def escapeChar (c : Char) : List Char :=
  if c == '\x27' || c == '\\' then ['\\', c]
  else if c == '\n' then ['\\', 'n']
  else if c == '\r' then ['\\', 'r']
  else if c == '\t' then ['\\', 't']
  else if ' ' ≤ c ∧ c ≤ '~' then [c]
  else spellOut c.toNat

/-- A text for a log: between single quotes, on one line, in ASCII alone. Whatever else it holds is
spelled out by code point, so that two texts which look alike are told apart. -/
def quoted (cs : List Char) : List Char :=
  '\x27' :: cs.flatMap escapeChar ++ ['\x27']

end Reckon.Text

namespace Reckon.CommandLine

/-- What a command leaves behind. -/
inductive Outcome where
  | usage (u : Usage)
  | done (exitCode : Nat) (output log : List String)
deriving DecidableEq, Repr

def truthText (b : Bool) : String :=
  if b then "True" else "False"

/-- The log of an evaluation, as far as it gets: the count of tokens, the program, the options. -/
def logLines (o : Options) (text : String) : List String :=
  if isBlankText text then []
  else match scan o text with
    | .error _ => []
    | .ok tokens =>
      ("radixcalc.tokenizer: tokenized " ++ String.ofList (Text.quoted text.toList) ++
          s!" into {tokens.length} tokens") ::
        match group tokens with
        | .error _ => []
        | .ok program =>
          ["radixcalc.parser: rpn: " ++ " ".intercalate (program.map Instruction.label),
            s!"radixcalc.core: evaluating in {o.mode.name} mode " ++
              s!"(width={o.width.val}, signed={truthText o.signed})"]

def viewLines (v : View) : List String :=
  v.primary :: (v.alternates.map fun a => "  " ++ a.1 ++ ": " ++ a.2) ++
    (v.bitPattern.map ("  Bits: " ++ ·)).toList

/-- The line for a note. An empty note is none. -/
def noteLines (note : Option String) : List String :=
  (note.filter (· != "")).toList.map ("note: " ++ ·)

/-- Carries out an invocation. -/
def Invocation.run (i : Invocation) : Outcome :=
  match Calculator.ofChanges i.changes with
  | .error e => .done 1 [] ["error: " ++ e.message]
  | .ok k =>
    let text := " ".intercalate i.words
    let log := if i.verbose then logLines k.options text else []
    match k.solve text with
    | .error e => .done 1 [] (log ++ ["error: " ++ e.message])
    | .ok v => .done 0 (viewLines v) (log ++ noteLines v.note)

/-- What a command with these arguments does. -/
def run (args : List String) : Outcome :=
  match Invocation.ofArguments args with
  | .error u => .usage u
  | .ok i => i.run

end Reckon.CommandLine
