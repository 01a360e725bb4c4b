/-!
# Hexadecimal text

Numbers and byte strings in lowercase hexadecimal digits.
-/

set_option autoImplicit false

namespace BytecodeSearch.Hex

/-- A byte as two digits. -/
def byte (b : UInt8) : List Char :=
  [Nat.digitChar (b.toNat / 16), Nat.digitChar (b.toNat % 16)]

/-- A byte string, two digits to a byte. -/
def bytes (bs : List UInt8) : String :=
  String.ofList (bs.flatMap byte)

/-- A number with no leading zeros. -/
def number (n : Nat) : List Char := Nat.toDigits 16 n

end BytecodeSearch.Hex
