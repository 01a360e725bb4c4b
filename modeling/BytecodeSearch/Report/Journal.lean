import BytecodeSearch.Report.Level

/-!
# The journal

A journal writes messages as lines, each with its level in brackets, and drops those below a
minimum level. Lines may start with the time since the start of the program, and may be coloured
by their level.
-/

set_option autoImplicit false

namespace BytecodeSearch

/-- How messages are written. -/
structure Journal where
  /-- The least level that is written. -/
  minimum : Level := .info
  /-- Whether lines start with a time stamp. -/
  stamped : Bool := true
  /-- Whether lines are coloured. -/
  coloured : Bool := false
  deriving DecidableEq, Repr

namespace Journal

/-- Whether a message of this level is written. -/
def enabled (j : Journal) (level : Level) : Bool := j.minimum ≤ level

/-- The time stamp for a time in milliseconds: seconds in five columns and three decimals. -/
def stamp (milliseconds : Nat) : String :=
  let decimals := Nat.toDigits 10 (milliseconds % 1000)
  Text.padRight 5 (toString (milliseconds / 1000)) ++ "." ++
    String.ofList (List.replicate (3 - decimals.length) '0' ++ decimals)

/-- The line of a message, without time and colour. -/
def line (level : Level) (message : String) : String :=
  "[" ++ Text.padLeft 5 level.name ++ "] " ++ message

/-- The terminal code that switches to a style. -/
def style (code : String) : String := "\x1b[" ++ code ++ "m"

/-- The terminal codes that switch to the colours of a level. -/
def colours (level : Level) : String :=
  style "0" ++
    match level with
    | .debug => style "36"
    | .info => ""
    | .warn => style "1" ++ style "33"
    | .error => style "1" ++ style "31"

/-- What is written for a message at the time shown by `time`; nothing if its level is below the
minimum. -/
def write (j : Journal) (time : String) (level : Level) (message : String) : String :=
  if j.enabled level then
    let text := (if j.stamped then time ++ " " else "") ++ line level message ++ "\n"
    if j.coloured then colours level ++ text ++ style "0" else text
  else ""

end Journal

end BytecodeSearch
