import Reckon.CommandLine.Run

/-!
# The command

Prints what `CommandLine.run` says and exits with its code: 0 for an answer, 1 for a fault, 2 for
arguments that make no sense.
-/

namespace Reckon.CommandLine

def usageText : String :=
  "usage: reckon [-h] [--mode float|int] [--input-base auto|2|8|10|16]\n" ++
  "              [--display-base 2|8|10|16|all] [--width BITS] [--unsigned] [-v]\n" ++
  "              expression [expression ...]"

end Reckon.CommandLine

def main (args : List String) : IO UInt32 := do
  match Reckon.CommandLine.run args with
  | .usage .help =>
    IO.println Reckon.CommandLine.usageText
    return 0
  | .usage .wrong =>
    IO.eprintln Reckon.CommandLine.usageText
    return 2
  | .done exitCode output log =>
    for line in output do
      IO.println line
    for line in log do
      IO.eprintln line
    return UInt32.ofNat exitCode
