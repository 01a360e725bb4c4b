import BytecodeSearch.Isa.Slot

/-!
# Checking code

A program is the first `length` words of a code buffer. `Code.validate` checks that the length
is a whole number of slots inside the buffer and then every slot in order, so the fault it
reports is the first one.
-/

set_option autoImplicit false

namespace BytecodeSearch.Code

/-- Whether `length` is a whole number of slots inside a buffer of `capacity` words. -/
def IsLength (length capacity : Nat) : Prop :=
  length % slotWidth = 0 ∧ length ≤ capacity

instance (length capacity : Nat) : Decidable (IsLength length capacity) :=
  inferInstanceAs (Decidable (_ ∧ _))

/-- Refuses a length that is not a whole number of slots inside the buffer. -/
def checkLength (code : Array Word) (length : Nat) : Except CodeError Unit :=
  if IsLength length code.size then .ok () else .error (.badLength length code.size)

/-- The offsets of the slots of a program of `length` words. -/
def offsets (length : Nat) : List Nat :=
  (List.range (length / slotWidth)).map (slotWidth * ·)

/-- Checks the first `length` words of `code`, and gives the instruction of every slot. -/
def opcodes (code : Array Word) (length : Nat) : Except CodeError (List Opcode) := do
  checkLength code length
  (offsets length).mapM fun pos => (Slot.read code pos).check pos

/-- Checks the first `length` words of `code`. -/
def validate (code : Array Word) (length : Nat) : Except CodeError Unit := do
  let _ ← opcodes code length
  return ()

end BytecodeSearch.Code
