import BytecodeSearch.Decimal.Fixed
import BytecodeSearch.Text.Column

/-!
# Lines of the benchmark report

Times are whole nanoseconds. Quotients of times are taken in floating point and shown with a
fixed number of decimals.
-/

set_option autoImplicit false

namespace BytecodeSearch.Bench

open Text (padLeft padRight)

/-- The number of nanoseconds in a second. -/
def nanosPerSecond : Nat := 1000000000

/-- A time in seconds. -/
def seconds (nanos : Nat) : Float :=
  Float.ofNat (nanos / nanosPerSecond) + Float.ofNat (nanos % nanosPerSecond) / 1e9

/-- How long some iterations took. -/
structure Timing where
  /-- The number of iterations. -/
  iterations : Nat
  /-- The time for all of them, in nanoseconds. -/
  total : Nat

/-- The time of one iteration, to the nearest nanosecond; zero if there were none. -/
def Timing.average (t : Timing) : Nat :=
  if t.iterations = 0 then 0
  else Fixed.scaled (seconds t.total / Float.ofNat t.iterations) 9

/-- The line over the timings. -/
def tableHead : String :=
  "  " ++ padLeft 30 "benchmark" ++ " " ++ padRight 7 "iters" ++ "       " ++
    padRight 14 "avg time" ++ " " ++ padRight 12 "steps/run" ++ "  " ++ padRight 10 "ns/step"

/-- The rule under the head. -/
def tableRule : String := "  " ++ String.ofList (List.replicate 82 '-')

/-- The line of a timing, with the number of instructions of one iteration. -/
def Timing.line (t : Timing) (name : String) (steps : Nat) : String :=
  let perStep :=
    if steps = 0 then "       -"
    else padRight 8 (Fixed.render (Float.ofNat t.average / Float.ofNat steps) 1)
  "  " ++ padLeft 30 name ++ " " ++ padRight 7 (toString t.iterations) ++ " iters " ++
    padRight 10 (Fixed.render (Float.ofNat t.average / 1000.0) 3) ++ " us/iter " ++
    padRight 12 (toString steps) ++ " steps  " ++ perStep ++ " ns/step"

/-- The line of a search: its attempts in a time, and how far it came. -/
def searchLine (name : String) (attempts elapsed solved cases slots : Nat) : String :=
  "  " ++ padLeft 12 name ++ " " ++ padRight 10 (toString attempts) ++ " attempts " ++
    padRight 12 (Fixed.render (Float.ofNat attempts / seconds elapsed) 0) ++
    s!" attempts/s  solved {solved}/{cases}  slots {slots}"

end BytecodeSearch.Bench
