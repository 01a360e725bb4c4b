/-!
# Random generators

A generator hands out random words of 32 and 64 bits.
-/

set_option autoImplicit false

namespace BytecodeSearch

/-- A state that random words are drawn from. -/
class Generator (ρ : Type) where
  /-- The next word of 32 bits. -/
  next32 : ρ → UInt32 × ρ
  /-- The next word of 64 bits. -/
  next64 : ρ → UInt64 × ρ

end BytecodeSearch
