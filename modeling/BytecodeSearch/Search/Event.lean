import BytecodeSearch.Report.Level

/-!
# Events of a search

What a search reports while it goes on, and the text and level of each report.
-/

set_option autoImplicit false

namespace BytecodeSearch

/-- Something worth reporting. -/
inductive Event where
  /-- A search starts with no cases. -/
  | nothingToSolve
  /-- A search starts from a stored program. -/
  | resumed (fingerprint : String) (slots : Nat)
  /-- An edit has raised the best score of a case. -/
  | improved (case score best attempts : Nat)
  /-- A case is solved; cases are counted from one. -/
  | solved (number cases attempts slots : Nat) (fingerprint : String)
  /-- The last case is solved. -/
  | finished (cases : Nat)
  deriving DecidableEq, Repr

namespace Event

/-- How urgent a report is. -/
def level : Event → Level
  | nothingToSolve => .warn
  | improved .. => .debug
  | resumed .. | solved .. | finished .. => .info

/-- The text of a report. -/
def message : Event → String
  | nothingToSolve => "Search created with an empty curriculum; nothing to solve"
  | resumed fingerprint slots =>
      s!"Resuming search from program {fingerprint} ({slots} slots)"
  | improved case score best attempts =>
      s!"case {case} improved to {score}/{best} after {attempts} attempts"
  | solved number cases attempts slots fingerprint =>
      s!"Solved case {number}/{cases} after {attempts} attempts: " ++
        s!"slots={slots} program={fingerprint}"
  | finished cases => s!"All {cases} cases solved"

end Event

end BytecodeSearch
