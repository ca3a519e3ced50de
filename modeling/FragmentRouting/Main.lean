import FragmentRouting.CommandLine.Run

/-!
# The program

Runs its command line and prints the outcome.
-/

open FragmentRouting

def main (words : List String) : IO UInt32 := do
  match (CommandLine.run [] words).1 with
  | .ok outcome =>
    IO.print outcome.output
    IO.eprint outcome.errors
    return UInt32.ofNat outcome.exitCode
  | .error failure =>
    IO.eprintln failure.message
    return 1
