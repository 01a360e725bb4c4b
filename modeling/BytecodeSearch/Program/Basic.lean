import BytecodeSearch.Program.Code

/-!
# Programs

A program is a code buffer with some words at its front in use. The buffer starts with room for
sixteen slots and doubles when a slot is written past its end; the words behind the program are
spare. `Program.ofWords` accepts exactly the words that `Code.validate` accepts.
-/

set_option autoImplicit false

namespace BytecodeSearch

/-- A code buffer and the number of its words in use. -/
structure Program where
  /-- The whole buffer. -/
  code : Array Word
  /-- How many words at the front form the program. -/
  length : Nat
  deriving DecidableEq, Repr

namespace Program

/-- The longest program whose slot boundaries, the end included, all fit a sixteen-bit jump
target. -/
def maxLength : Nat := 65532

/-- The words of a fresh buffer. -/
def freshCapacity : Nat := 64

/-- The empty program. -/
def empty : Program := ⟨Array.replicate freshCapacity 0, 0⟩

/-- The size of the buffer after it has grown once. -/
def grownCapacity (capacity : Nat) : Nat := max capacity slotWidth * 2

theorem lt_grownCapacity (capacity : Nat) : capacity < grownCapacity capacity := by
  simp only [grownCapacity, slotWidth]
  omega

/-- The buffer with room for `n` words: its capacity doubles until they fit, and new words are
zero. -/
def reserve (code : Array Word) (n : Nat) : Array Word :=
  if code.size < n then
    reserve (code ++ Array.replicate (grownCapacity code.size - code.size) 0) n
  else code
  termination_by n - code.size
  decreasing_by
    have := lt_grownCapacity code.size
    simp only [Array.size_append, Array.size_replicate]
    omega

/-- Stores words in a buffer from offset `pos` on. -/
def store (code : Array Word) (pos : Nat) : List Word → Array Word
  | [] => code
  | w :: ws => store (code.setIfInBounds pos w) (pos + 1) ws

/-- The words of the program. -/
def words (p : Program) : Array Word := p.code.take p.length

/-- The number of slots of the program. -/
def slots (p : Program) : Nat := p.length / slotWidth

/-- The number of words of the buffer. -/
def capacity (p : Program) : Nat := p.code.size

/-- Whether the program has no words. -/
def isEmpty (p : Program) : Bool := p.length == 0

/-- The slot at offset `pos` of the buffer, spare words included. -/
def slot? (p : Program) (pos : Nat) : Option Slot :=
  if pos + slotWidth ≤ p.code.size then some (Slot.read p.code pos) else none

/-- Writes a slot at offset `pos`, which makes room for it, and sets the length. -/
def write (p : Program) (pos : Nat) (s : Slot) (length : Nat) : Program :=
  ⟨store (reserve p.code (pos + slotWidth)) pos s.words, length⟩

/-- Checks the program. -/
def validate (p : Program) : Except CodeError Unit := Code.validate p.code p.length

/-- The program of these words in a buffer that has just room for them, if they are valid. -/
def ofWords (ws : Array Word) : Except CodeError Program := do
  let code := reserve empty.code ws.size
  let p : Program := ⟨store code 0 ws.toList, ws.size⟩
  p.validate
  return p

end Program

end BytecodeSearch
