import BytecodeSearch.Isa.Opcode

/-!
# Slots and the faults of code

Code is a flat array of words cut into slots of four: an opcode word and three argument words.
`Slot.check` reads a slot against the instruction table, from the opcode through the used
arguments in order, and reports the first thing that is wrong. Jumps have to land on a later
slot boundary, which is what bounds every run.
-/

set_option autoImplicit false

namespace BytecodeSearch

/-- The number of words in a slot. -/
def slotWidth : Nat := 4

/-- The number of registers. -/
def registerCount : Nat := 8

/-- What can be wrong with code. Offsets are word offsets of the slot at fault. -/
inductive CodeError where
  /-- The opcode word is in no table entry. -/
  | unknownOpcode (opcode : Word) (offset : Nat)
  /-- A register argument is past the register file. -/
  | registerOutOfRange (index : Word) (offset : Nat)
  /-- A jump target is not after the jump. -/
  | backwardJump (target : Word) (offset : Nat)
  /-- A jump target is not a slot boundary. -/
  | misalignedJump (target : Word) (offset : Nat)
  /-- The program length is not a whole number of slots inside the buffer. -/
  | badLength (length capacity : Nat)
  deriving DecidableEq, Repr

/-- The text of a fault. -/
def CodeError.message : CodeError → String
  | .unknownOpcode opcode offset => s!"invalid instruction {opcode} at word {offset}"
  | .registerOutOfRange index offset => s!"register index {index} out of bounds at word {offset}"
  | .backwardJump target offset =>
      s!"jump at word {offset} targets word {target}, which is not after it"
  | .misalignedJump target offset =>
      s!"jump at word {offset} targets word {target}, which is not a slot boundary"
  | .badLength length capacity =>
      s!"program length {length} is invalid for a code buffer of {capacity} words"

/-! ## Operands -/

/-- The number of a register among `count`, kept in eight bits. -/
def registerNumber? (index : Word) (count : Nat) : Option UInt8 :=
  if index.toNat < count then some index.toUInt8 else none

/-- A register of the machine. -/
abbrev Reg := Fin 8

/-- The register an argument word names. -/
def Reg.ofWord? (w : Word) : Option Reg :=
  if h : w.toNat < 8 then some ⟨w.toNat, h⟩ else none

/-- The registers of the machine are those with a number among `registerCount`. -/
theorem registerNumber?_registerCount (w : Word) :
    registerNumber? w registerCount = (Reg.ofWord? w).map fun r => UInt8.ofNat r.val := by
  by_cases h : w.toNat < 8
  · have hnumber : w.toUInt8 = UInt8.ofNat w.toNat := by simp
    rw [registerNumber?, registerCount, if_pos h, Reg.ofWord?, dif_pos h, hnumber]
    rfl
  · rw [registerNumber?, registerCount, if_neg h, Reg.ofWord?, dif_neg h]
    rfl

/-- A jump target for the slot at `pos`: a slot boundary strictly after it. -/
structure Target (pos : Nat) where
  /-- The word offset jumped to. -/
  word : Word
  /-- The target is a slot boundary. -/
  aligned : word.toNat % slotWidth = 0
  /-- The target lies after the jump. -/
  forward : pos < word.toNat

/-- Reads an argument word of the slot at `pos` as a register. -/
def Reg.read (pos : Nat) (w : Word) : Except CodeError Reg :=
  match Reg.ofWord? w with
  | some r => .ok r
  | none => .error (.registerOutOfRange w pos)

/-- Reads an argument word of the slot at `pos` as a jump target: alignment is looked at before
direction. -/
def Target.read (pos : Nat) (w : Word) : Except CodeError (Target pos) :=
  if aligned : w.toNat % slotWidth = 0 then
    if forward : pos < w.toNat then .ok ⟨w, aligned, forward⟩
    else .error (.backwardJump w pos)
  else .error (.misalignedJump w pos)

/-- Checks one argument word of the slot at `pos` against its kind. -/
def OperandKind.check (pos : Nat) (w : Word) : OperandKind → Except CodeError Unit
  | immediate => .ok ()
  | register => (Reg.read pos w).map fun _ => ()
  | target => (Target.read pos w).map fun _ => ()

/-- The text of an argument word in assembly: a register with its letter, an immediate in
decimal, a target as the number of the slot it points at. -/
def OperandKind.render (w : Word) : OperandKind → List Char
  | register => 'r' :: Nat.toDigits 10 w.toNat
  | immediate => Nat.toDigits 10 w.toNat
  | target => 'l' :: Nat.toDigits 10 (w.toNat / slotWidth)

/-! ## Slots -/

/-- The four words of a slot. -/
structure Slot where
  /-- The opcode word. -/
  opcode : Word
  /-- The first argument word. -/
  arg1 : Word
  /-- The second argument word. -/
  arg2 : Word
  /-- The third argument word. -/
  arg3 : Word
  deriving DecidableEq, Repr

namespace Slot

/-- The slot of zero words. -/
def zero : Slot := ⟨0, 0, 0, 0⟩

/-- The argument words, in order. -/
def args (s : Slot) : List Word := [s.arg1, s.arg2, s.arg3]

/-- The four words, in order. -/
def words (s : Slot) : List Word := [s.opcode, s.arg1, s.arg2, s.arg3]

/-- The slot of an instruction with these argument words; missing arguments are zero. -/
def ofArgs (op : Opcode) (args : List Word) : Slot :=
  ⟨op.word, args[0]?.getD 0, args[1]?.getD 0, args[2]?.getD 0⟩

/-- The words of `code` from `pos` on, as a slot. Words past the end of `code` read as zero. -/
def read (code : Array Word) (pos : Nat) : Slot :=
  ⟨code.getD pos 0, code.getD (pos + 1) 0, code.getD (pos + 2) 0, code.getD (pos + 3) 0⟩

/-- Checks argument words against their kinds, left to right. -/
def checkArgs (pos : Nat) : List OperandKind → List Word → Except CodeError Unit
  | kind :: kinds, w :: ws => do
      kind.check pos w
      checkArgs pos kinds ws
  | _, _ => .ok ()

/-- Checks the slot at `pos`: its opcode is known and every used argument fits its kind. -/
def check (pos : Nat) (s : Slot) : Except CodeError Opcode :=
  match Opcode.ofWord? s.opcode with
  | none => .error (.unknownOpcode s.opcode pos)
  | some op => do
      checkArgs pos op.layout s.args
      return op

end Slot

end BytecodeSearch
