import BytecodeSearch.Bench.Session

/-!
# The benchmark program

Reads the settings from the environment, drives a benchmark session with the clock of the system
and prints its report line by line.
-/

set_option autoImplicit false

namespace BytecodeSearch

/-- Feeds clock readings to a session until it is over, and prints the lines it adds. -/
partial def drive (s : Bench.Session) (printed : Nat) (logged : String) : IO Unit := do
  let out ← IO.getStdout
  for line in s.report.drop printed do
    out.putStrLn line
  out.flush
  IO.eprint (s.journal.drop logged.length).toString
  if s.isOver then return
  drive (s.read (← IO.monoNanosNow)) s.report.size s.journal

/-- Runs the benchmarks. -/
def runBenchmarks : IO UInt32 := do
  let keys := [Settings.memoryKey, Settings.registersKey, Settings.speedKey, Settings.chunkKey,
    Settings.seedKey]
  let values ← keys.mapM fun key => do return (key, ← IO.getEnv key)
  let lookup (key : String) : Option String := (values.lookup key).join
  match Settings.ofLookup lookup with
  | .error e =>
      IO.eprintln ("config: " ++ e.detail)
      return 101
  | .ok settings =>
      match Bench.Session.start settings with
      | .error e =>
          let out ← IO.getStdout
          for line in Bench.Session.timingHead do
            out.putStrLn line
          IO.eprintln e.message
          return 101
      | .ok session =>
          drive session 0 ""
          return 0

end BytecodeSearch

/-- Runs the benchmarks. -/
def main : IO UInt32 := BytecodeSearch.runBenchmarks
