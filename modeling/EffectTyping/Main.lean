/-
The program: reads the files its arguments name, and writes what the command answers.
-/
import EffectTyping.Command.Run

open EffectTyping in
/-- Runs the command that the arguments ask for; the result is the exit code. -/
def main (arguments : List String) : IO UInt32 := do
  let readFile (path : String) : IO (Option ByteArray) := do
    try
      return some (← IO.FS.readBinFile path)
    catch _ =>
      return none
  let outcome ← Command.runArgs readFile arguments
  IO.print outcome.stdout
  unless outcome.stderr.isEmpty do
    IO.eprintln outcome.stderr
  return .ofNat outcome.code
