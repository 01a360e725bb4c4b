import BytecodeSearch.Isa.Opcode

/-!
# Data memory

A memory is a fixed number of words. Addresses wrap modulo its size; a memory of no words reads
as zero and discards what is written. There is no memory of `Memory.limit` words or more:
`Memory.allocate` refuses to make one.
-/

set_option autoImplicit false

namespace BytecodeSearch

/-- The words of a data memory. -/
structure Memory where
  /-- The words, from address zero on. -/
  words : Array Word
  deriving DecidableEq, Repr

namespace Memory

/-- The number of words. -/
def size (m : Memory) : Nat := m.words.size

/-- A memory of `n` zero words, where there can be so many (`allocate`). -/
def zero (n : Nat) : Memory := ⟨Array.replicate n 0⟩

/-- A memory has fewer words than this: a word takes two bytes, and the size of an allocation in
bytes is less than `2 ^ 63`. -/
def limit : Nat := 1 <<< 62

/-- A memory of `size` words is asked for, and there is none. -/
structure TooLarge where
  /-- The number of words. -/
  size : Nat
  deriving DecidableEq, Repr

/-- The text of the refusal. -/
def TooLarge.message (_ : TooLarge) : String := "capacity overflow"

/-- Makes a memory of `n` zero words. -/
def allocate (n : Nat) : Except TooLarge Memory := if n < limit then .ok (zero n) else .error ⟨n⟩

/-- The word at an address. -/
def read (m : Memory) (addr : Word) : Word := m.words.getD (addr.toNat % m.size) 0

/-- Stores a word at an address. -/
def write (m : Memory) (addr value : Word) : Memory :=
  ⟨m.words.setIfInBounds (addr.toNat % m.size) value⟩

/-- Every word zero. -/
def clear (m : Memory) : Memory := zero m.size

/-- The input at the front and zeros behind it. What does not fit is dropped. -/
def load (m : Memory) (input : Array Word) : Memory :=
  ⟨input.take m.size ++ Array.replicate (m.size - input.size) 0⟩

theorem allocate_of_lt {n : Nat} (h : n < limit) : allocate n = .ok (zero n) := if_pos h

theorem allocate_of_le {n : Nat} (h : limit ≤ n) : allocate n = .error ⟨n⟩ :=
  if_neg (Nat.not_lt.mpr h)

@[simp] theorem size_zero (n : Nat) : (zero n).size = n := by simp [zero, size]

@[simp] theorem size_write (m : Memory) (addr value : Word) : (m.write addr value).size = m.size := by
  simp [write, size]

@[simp] theorem size_clear (m : Memory) : m.clear.size = m.size := by simp [clear]

@[simp] theorem size_load (m : Memory) (input : Array Word) : (m.load input).size = m.size := by
  simp [load, size]
  omega

end Memory

end BytecodeSearch
