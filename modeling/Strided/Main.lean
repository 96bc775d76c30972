import Strided.CommandLine

/-!
# The program

Hands the arguments to `Strided.CommandLine.run` and prints what it says.
-/

/-- Runs the command line, with a random seed at hand. -/
def main (args : List String) : IO UInt32 := do
  let bytes ← IO.getRandomBytes 8
  let entropy := bytes.toList.foldl (fun n b => n * 256 + b.toUInt64) 0
  let outcome := Strided.CommandLine.run entropy args
  IO.print outcome.stdout
  IO.eprint outcome.stderr
  return UInt32.ofNat outcome.exit
