/-!
# Unsigned numerals

A numeral is an optional `+` and one or more decimal digits; leading zeros are allowed. It is
read only if its value is below a bound, which is how a field's width refuses a number.
-/

set_option autoImplicit false

namespace BytecodeSearch.Numeral

/-- The value of one or more decimal digits. -/
def value? (cs : List Char) : Option Nat :=
  if !cs.isEmpty && cs.all Char.isDigit then some (Nat.ofDigitChars 10 cs 0) else none

/-- The text behind an optional `+`. -/
def dropSign : List Char → List Char
  | '+' :: cs => cs
  | cs => cs

/-- Reads a numeral whose value is below `bound`. -/
def read? (bound : Nat) (cs : List Char) : Option Nat :=
  (value? (dropSign cs)).filter (· < bound)

end BytecodeSearch.Numeral
