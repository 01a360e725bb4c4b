import BytecodeSearch.Text.Column

/-!
# Levels of messages

Messages have one of four levels, from least to most urgent.
-/

set_option autoImplicit false

namespace BytecodeSearch

/-- How urgent a message is. -/
inductive Level where
  | debug | info | warn | error
  deriving DecidableEq, Repr

namespace Level

/-- The place of a level, the least urgent first. -/
def rank : Level → Nat
  | debug => 0
  | info => 1
  | warn => 2
  | error => 3

instance : LE Level where
  le a b := a.rank ≤ b.rank

instance : LT Level where
  lt a b := a.rank < b.rank

instance (a b : Level) : Decidable (a ≤ b) := inferInstanceAs (Decidable (a.rank ≤ b.rank))

instance (a b : Level) : Decidable (a < b) := inferInstanceAs (Decidable (a.rank < b.rank))

/-- The name of a level. -/
def name : Level → String
  | debug => "DEBUG"
  | info => "INFO"
  | warn => "WARN"
  | error => "ERROR"

end Level

end BytecodeSearch
