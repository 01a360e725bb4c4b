import BytecodeSearch.Isa.Slot

/-!
# Decoded instructions

`Instr pos` is an instruction of the slot at word offset `pos`, with its operands read: registers
exist, and a jump target lies after `pos`. Instructions that differ only in the operation they
apply share a constructor. `Slot.decode` reads a slot, and reports the same faults in the same
order as `Slot.check`.
-/

set_option autoImplicit false

namespace BytecodeSearch

/-- Operations that combine the destination register with a source register. -/
inductive BinaryOp where
  | add | sub | mul | div | rem
  | or | and | xor | not
  | shl | shr
  deriving DecidableEq, Repr

/-- Conditions on two registers that a jump may depend on. -/
inductive Comparison where
  | greater | less | equal
  deriving DecidableEq, Repr

/-- What a sensor instruction asks of the host. -/
inductive Hook where
  | out | step | eat | clone
  deriving DecidableEq, Repr

/-- A decoded instruction of the slot at word offset `pos`. -/
inductive Instr (pos : Nat) where
  /-- Stores a value in a register. -/
  | set (value : Word) (dst : Reg)
  /-- Copies a register. -/
  | move (src dst : Reg)
  /-- Adds one to a register. -/
  | inc (dst : Reg)
  /-- Takes one from a register. -/
  | dec (dst : Reg)
  /-- Combines the destination with the source. -/
  | binary (op : BinaryOp) (src dst : Reg)
  /-- Loads the memory word that `addr` points at. -/
  | read (addr dst : Reg)
  /-- Stores a register in the memory word that `addr` points at. -/
  | write (addr src : Reg)
  /-- Jumps. -/
  | jump (target : Target pos)
  /-- Jumps if the comparison holds. -/
  | jumpIf (rel : Comparison) (lhs rhs : Reg) (target : Target pos)
  /-- Jumps if the register is zero, or if it is not, as `zero` tells. -/
  | jumpTest (zero : Bool) (reg : Reg) (target : Target pos)
  /-- Appends a register to the output. -/
  | echo (src : Reg)
  /-- Pauses until the host answers a query with the value for `dst`. -/
  | ask (query dst : Reg)
  /-- Hands two registers to the host, which may reply with a value for `dst`. -/
  | sense (hook : Hook) (a b dst : Reg)

namespace Slot

/-- Reads two register arguments. -/
@[inline] def decode2 {pos : Nat} (s : Slot) (f : Reg → Reg → Instr pos) :
    Except CodeError (Instr pos) := do
  let a ← Reg.read pos s.arg1
  let b ← Reg.read pos s.arg2
  return f a b

/-- Reads three register arguments. -/
@[inline] def decode3 {pos : Nat} (s : Slot) (f : Reg → Reg → Reg → Instr pos) :
    Except CodeError (Instr pos) := do
  let a ← Reg.read pos s.arg1
  let b ← Reg.read pos s.arg2
  let c ← Reg.read pos s.arg3
  return f a b c

/-- Reads two register arguments and a target. -/
@[inline] def decodeCompare {pos : Nat} (s : Slot) (rel : Comparison) :
    Except CodeError (Instr pos) := do
  let a ← Reg.read pos s.arg1
  let b ← Reg.read pos s.arg2
  let t ← Target.read pos s.arg3
  return .jumpIf rel a b t

/-- Reads a register argument and a target. -/
@[inline] def decodeTest {pos : Nat} (s : Slot) (zero : Bool) : Except CodeError (Instr pos) := do
  let a ← Reg.read pos s.arg1
  let t ← Target.read pos s.arg2
  return .jumpTest zero a t

/-- Reads the arguments of the slot at `pos` for a known instruction, left to right. -/
def decodeArgs (pos : Nat) (s : Slot) : Opcode → Except CodeError (Instr pos)
  | .set => return .set s.arg1 (← Reg.read pos s.arg2)
  | .move => s.decode2 .move
  | .inc => return .inc (← Reg.read pos s.arg1)
  | .dec => return .dec (← Reg.read pos s.arg1)
  | .add => s.decode2 (.binary .add)
  | .sub => s.decode2 (.binary .sub)
  | .read => s.decode2 .read
  | .write => s.decode2 .write
  | .jump => return .jump (← Target.read pos s.arg1)
  | .jumpGreater => s.decodeCompare .greater
  | .jumpLess => s.decodeCompare .less
  | .jumpEqual => s.decodeCompare .equal
  | .jumpZero => s.decodeTest true
  | .jumpNonzero => s.decodeTest false
  | .echo => return .echo (← Reg.read pos s.arg1)
  | .or => s.decode2 (.binary .or)
  | .and => s.decode2 (.binary .and)
  | .xor => s.decode2 (.binary .xor)
  | .not => s.decode2 (.binary .not)
  | .mul => s.decode2 (.binary .mul)
  | .div => s.decode2 (.binary .div)
  | .rem => s.decode2 (.binary .rem)
  | .shl => s.decode2 (.binary .shl)
  | .shr => s.decode2 (.binary .shr)
  | .ask => s.decode2 .ask
  | .out => s.decode3 (.sense .out)
  | .step => s.decode3 (.sense .step)
  | .eat => s.decode3 (.sense .eat)
  | .clone => s.decode3 (.sense .clone)

end Slot

end BytecodeSearch
