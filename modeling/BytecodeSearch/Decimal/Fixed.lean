/-!
# Floating point numbers with a fixed number of decimals

A finite number is `m * 2 ^ e` with a whole `m`. `Fixed.scaled x places` is `x * 10 ^ places`
rounded to a whole number, and `Fixed.render` shows it with that many decimals. The value is
taken exactly; a half goes to the even neighbour. Numbers are not negative here: the sign bit is
ignored.
-/

set_option autoImplicit false

namespace BytecodeSearch.Fixed

/-- `num / den` rounded to the nearest whole number, a half to the even one. -/
def roundDiv (num den : Nat) : Nat :=
  let q := num / den
  let twice := 2 * (num % den)
  if twice < den then q
  else if den < twice then q + 1
  else q + q % 2

/-- The exponent field of a number. -/
def exponentField (x : Float) : Nat := (x.toBits.toNat / (1 <<< 52)) % (1 <<< 11)

/-- The fraction field of a number. -/
def fractionField (x : Float) : Nat := x.toBits.toNat % (1 <<< 52)

/-- Whether a number is neither infinite nor undefined. -/
def isFinite (x : Float) : Bool := exponentField x != 2047

/-- A finite number as a quotient of whole numbers. -/
def toFraction (x : Float) : Nat × Nat :=
  let e := exponentField x
  let m := if e = 0 then fractionField x else fractionField x + (1 <<< 52)
  let shift := max e 1
  if shift < 1075 then (m, 1 <<< (1075 - shift)) else (m <<< (shift - 1075), 1)

/-- A finite number times `10 ^ places`, rounded. -/
def scaled (x : Float) (places : Nat) : Nat :=
  let (num, den) := toFraction x
  roundDiv (num * Nat.pow 10 places) den

/-- A whole number of units of `10 ^ -places`, as text. -/
def renderScaled (n places : Nat) : String :=
  let whole := toString (n / Nat.pow 10 places)
  let decimals := Nat.toDigits 10 (n % Nat.pow 10 places)
  if places = 0 then whole
  else whole ++ "." ++ String.ofList (List.replicate (places - decimals.length) '0' ++ decimals)

/-- A number with this many decimals. -/
def render (x : Float) (places : Nat) : String :=
  if isFinite x then renderScaled (scaled x places) places
  else if fractionField x = 0 then "inf"
  else "NaN"

end BytecodeSearch.Fixed
