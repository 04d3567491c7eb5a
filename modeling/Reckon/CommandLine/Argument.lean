import Reckon.Text.Classes

/-!
# Arguments of the command line

Whether an argument is an operand or a switch is decided by its look alone. A long switch may be
cut short as long as it stays unambiguous, and may hold its value after an equals sign; short
switches may be run together. What starts with a hyphen and is no switch is still an operand if it
is a plain negative number or has a space in it.
-/

namespace Reckon.CommandLine

inductive Switch where
  | help | mode | inputBase | displayBase | width | unsigned | verbose
deriving DecidableEq, Repr

namespace Switch

def all : List Switch :=
  [help, mode, inputBase, displayBase, width, unsigned, verbose]

def longName : Switch → String
  | help => "--help"
  | mode => "--mode"
  | inputBase => "--input-base"
  | displayBase => "--display-base"
  | width => "--width"
  | unsigned => "--unsigned"
  | verbose => "--verbose"

def ofLetter? : Char → Option Switch
  | 'h' => some help
  | 'v' => some verbose
  | _ => none

/-- Whether the switch is followed by a value. -/
def takesValue : Switch → Bool
  | mode | inputBase | displayBase | width => true
  | help | unsigned | verbose => false

end Switch

/-- Why a command line is not run. -/
inductive Usage where
  /-- Help was asked for. -/
  | help
  /-- The arguments make no sense. -/
  | wrong
deriving DecidableEq, Repr

inductive Argument where
  | operand (text : String)
  /-- A switch with the value that was joined to it. -/
  | long (s : Switch) (value : Option String)
  /-- Short switches in a row. -/
  | short (ss : List Switch)
  /-- A short switch with something joined to it that is no switch. -/
  | overloaded
  /-- A hyphenated argument that is neither. -/
  | unknown
deriving DecidableEq, Repr

/-- The switches that are joined to a short one. An equals sign may stand in front of them, though
not alone. -/
def joined? : List Char → Option (List Switch)
  | ['='] => none
  | '=' :: cs => cs.mapM Switch.ofLetter?
  | cs => cs.mapM Switch.ofLetter?

/-- Whether the text is a hyphen with digits, or with digits around a point of which only those
after it are needed. A line end may follow. -/
def isNegativeNumber : List Char → Bool
  | '-' :: cs =>
    let isDigit := fun c => (Text.decimalDigit? c).isSome
    let body := if cs.getLast? == some '\n' then cs.dropLast else cs
    match body.dropWhile isDigit with
    | [] => !body.isEmpty
    | '.' :: ds => !ds.isEmpty && ds.all isDigit
    | _ => false
  | _ => false

/-- What a hyphenated argument is that is no switch. -/
def hyphenated (text : String) : Argument :=
  if isNegativeNumber text.toList || text.toList.contains ' ' then .operand text else .unknown

/-- The part before the first equals sign, and what comes after it if there is one. -/
def splitValue (cs : List Char) : String × Option String :=
  let name := cs.takeWhile (· != '=')
  match cs.dropWhile (· != '=') with
  | _ :: value => (String.ofList name, some (String.ofList value))
  | [] => (String.ofList name, none)

/-- A long switch by its whole name or an unambiguous beginning of it. -/
def longSwitch (text : String) : Except Usage Argument :=
  let (name, value) := splitValue text.toList
  match Switch.all.find? (·.longName == name) with
  | some s => .ok (.long s value)
  | none =>
    match Switch.all.filter fun s => name.toList.isPrefixOf s.longName.toList with
    | [s] => .ok (.long s value)
    | [] => .ok (hyphenated text)
    | _ => .error .wrong

/-- What an argument is. -/
def classify (text : String) : Except Usage Argument :=
  match text.toList with
  | '-' :: '-' :: _ => longSwitch text
  | '-' :: c :: cs =>
    match Switch.ofLetter? c with
    | some s =>
      match joined? cs with
      | some ss => .ok (.short (s :: ss))
      | none => .ok .overloaded
    | none => .ok (hyphenated text)
  | _ => .ok (.operand text)

end Reckon.CommandLine
