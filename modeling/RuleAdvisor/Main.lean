import RuleAdvisor.CommandLine.Program

/-!
The program itself: it reads the environment, draws a random value and prints the outcome.
-/

open RuleAdvisor CommandLine

def readEnvironment (names : List String) : IO (Record String) := do
  let entries ← names.mapM fun name => do pure (name, ← IO.getEnv name)
  pure (Record.ofList entries).present

def main (arguments : List String) : IO UInt32 := do
  let environment ← readEnvironment ["DECIDE_LOG_LEVEL", "DECIDE_LOG_COLORS", "FORCE_COLOR"]
  let drawn ← IO.rand 0 (powerOfTwo 53 - 1)
  let random : Float := Number.ofNat drawn / Number.ofNat (powerOfTwo 53)
  let outcome := run environment arguments random
  (← IO.getStdout).putStr (outcome.text .output)
  (← IO.getStderr).putStr (outcome.text .errors)
  pure (UInt32.ofNat outcome.exitCode)
