import Reckon.CommandLine.Argument
import Reckon.Options.Basic
import Reckon.Text.Written

/-!
# Invocations

A command line is read from left to right. Switches set options, of which the last setting holds;
the operands are the words of the expression and must stand together. A double hyphen ends the
switches: whatever comes after it is an operand.
-/

namespace Reckon.CommandLine

/-- What a command line asks for. -/
structure Invocation where
  changes : Changes := {}
  verbose : Bool := false
  words : List String := []
deriving DecidableEq, Repr

/-- How far the words of the expression have come. -/
inductive Stage where
  | before | within | after
deriving DecidableEq, Repr

structure Progress where
  invocation : Invocation := {}
  stage : Stage := .before
  /-- Whether there was an argument that belongs nowhere. -/
  stray : Bool := false
deriving DecidableEq, Repr

namespace Progress

/-- Takes in words of the expression, which must not have ended. -/
def operands (p : Progress) (ws : List String) : Progress :=
  match p.stage with
  | .after => { p with stray := true }
  | _ =>
    { p with
      stage := .within
      invocation := { p.invocation with words := p.invocation.words ++ ws } }

/-- A switch ends the words of the expression, if they have begun. -/
def interrupt (p : Progress) : Progress :=
  match p.stage with
  | .within => { p with stage := .after }
  | _ => p

def setChanges (p : Progress) (c : Changes) : Progress :=
  { p with invocation := { p.invocation with changes := c } }

end Progress

/-- A value that must be the text of one of the keys. -/
def choiceValue {α : Type} (choices : List (Key × α)) (v : String) : Except Usage Raw :=
  if choices.any (·.1.text == v) then .ok (.text v) else .error .wrong

/-- A value that must be an integer. -/
def integerValue (v : String) : Except Usage Raw :=
  match Text.integer? v.toList with
  | some n => .ok (.integer n)
  | none => .error .wrong

/-- The raw value of a switch. A double hyphen never is a value: joined to a switch it drops out,
and the empty list that is left is for the options to refuse. -/
def rawValue (read : String → Except Usage Raw) (v : String) : Except Usage Raw :=
  if v == "--" then .ok (.list []) else read v

/-- Carries out a switch that takes a value. -/
def setValue (p : Progress) (s : Switch) (v : String) : Except Usage Progress := do
  let c := p.invocation.changes
  match s with
  | .mode =>
    return p.setChanges { c with mode := some (← rawValue (choiceValue Mode.choices) v) }
  | .inputBase =>
    return p.setChanges { c with inputBase := some (← rawValue (choiceValue InputBase.choices) v) }
  | .displayBase =>
    let raw ← rawValue (choiceValue DisplayBase.choices) v
    return p.setChanges { c with displayBase := some raw }
  | .width => return p.setChanges { c with width := some (← rawValue integerValue v) }
  | _ => throw .wrong

/-- Carries out a switch without a value. -/
def setFlag (p : Progress) : Switch → Except Usage Progress
  | .help => .error .help
  | .unsigned =>
    .ok (p.setChanges { p.invocation.changes with signed := some (.truth false) })
  | .verbose => .ok { p with invocation := { p.invocation with verbose := true } }
  | _ => .error .wrong

/-- Reads the arguments before a double hyphen. -/
def readArguments (p : Progress) : List Argument → Except Usage Progress
  | [] => .ok p
  | .operand w :: as => readArguments (p.operands [w]) as
  | .unknown :: as => readArguments { p.interrupt with stray := true } as
  | .overloaded :: _ => .error .wrong
  | .short ss :: as => do
    readArguments (← ss.foldlM setFlag p.interrupt) as
  | .long s (some v) :: as => do
    readArguments (← setValue p.interrupt s v) as
  | .long s none :: as =>
    if s.takesValue then
      match as with
      | .operand v :: as => do readArguments (← setValue p.interrupt s v) as
      | _ => .error .wrong
    else do readArguments (← setFlag p.interrupt s) as

/-- Reads what stands after a double hyphen. The hyphen itself belongs to the expression, and so
must not come after its end. -/
def readOperands (p : Progress) : List String → Progress
  | [] => if p.stage = .after then { p with stray := true } else p
  | ws => p.operands ws

/-- The invocation that the arguments spell. -/
def Invocation.ofArguments (args : List String) : Except Usage Invocation := do
  let p ← readArguments {} (← (args.takeWhile (· != "--")).mapM classify)
  let p := match args.dropWhile (· != "--") with
    | [] => p
    | _ :: ws => readOperands p ws
  if p.stray || p.stage = .before then throw .wrong
  return p.invocation

end Reckon.CommandLine
