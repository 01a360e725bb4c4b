import BytecodeSearch.Program.Basic
import BytecodeSearch.Random.Choice

/-!
# Random edits

An edit writes one slot: it appends an instruction to the program, or replaces one of its
instructions. `Edit.choose` draws an edit. Jumps are drawn so that they land behind their own
slot and at most at the end of the program, so no edit makes a loop.

`Editor` is a program with the last edit remembered, which can be undone once.
-/

set_option autoImplicit false

namespace BytecodeSearch

/-- A slot to write, and the length of the program after that. -/
structure Edit where
  /-- The offset of the slot. -/
  pos : Nat
  /-- The words to write there. -/
  slot : Slot
  /-- The new length. -/
  length : Nat
  deriving DecidableEq, Repr

namespace Edit

/-- Draws one of the slots of a program of `length` words to replace. -/
def choosePlaceInside (length : Nat) : Choice (Nat × Nat) := do
  let i ← Choice.number (.large (length / slotWidth))
  return (i * slotWidth, length)

/-- Draws the offset to write at and the new length. An empty program grows; one that has no
room for another slot below `Program.maxLength` does not; any other grows once in
`length * speed` times. -/
def choosePlace (length speed : Nat) : Choice (Nat × Nat) := do
  let append := (length, length + slotWidth)
  if length / slotWidth = 0 then
    return append
  else if length + slotWidth ≤ Program.maxLength then
    let v ← Choice.number (.large (length * speed))
    if v = 0 then return append else choosePlaceInside length
  else
    choosePlaceInside length

/-- Draws an instruction; one that jumps only if there is something to jump to. Instructions
that will not do are drawn again, at most so many times. -/
def chooseOpcode (canJump : Bool) : Nat → Choice Opcode
  | 0 => return .set
  | tries + 1 => do
      let i ← Choice.number (.large Opcode.count)
      let op := Opcode.all.getD i .set
      if op.isJump && !canJump then chooseOpcode canJump tries else return op

/-- Draws an argument word for the slot at `pos`, with `registers` registers in use and jumps
that reach at most `last`. -/
def chooseArg (pos last registers : Nat) : OperandKind → Choice Word
  | .register => return UInt16.ofNat (← Choice.number (.small registers))
  | .immediate => return UInt16.ofNat (← Choice.number .word)
  | .target => do
      let k ← Choice.number (.large ((last - pos) / slotWidth))
      return UInt16.ofNat (pos + (k + 1) * slotWidth)

/-- Draws argument words of the given kinds, in order. -/
def chooseArgs (pos last registers : Nat) : List OperandKind → Choice (List Word)
  | [] => return []
  | kind :: kinds => do
      let w ← chooseArg pos last registers kind
      let ws ← chooseArgs pos last registers kinds
      return w :: ws

/-- Draws an instruction for the slot at `pos` in a program of `length` words. -/
def chooseSlot (pos length registers : Nat) : Choice Slot := do
  let last := min length Program.maxLength
  let op ← chooseOpcode (pos + slotWidth ≤ last) patience
  let args ← chooseArgs pos last registers op.layout
  return Slot.ofArgs op args

/-- The number of registers an edit may use: at least one and at most all. -/
def clampRegisters (count : Nat) : Nat := max 1 (min count registerCount)

/-- Draws an edit of a program of `length` words. A higher `speed` makes it grow more slowly. -/
def choose (length speed registers : Nat) : Choice Edit := do
  let (pos, newLength) ← choosePlace length (max speed 1)
  let slot ← chooseSlot pos newLength (clampRegisters registers)
  return ⟨pos, slot, newLength⟩

end Edit

/-- What an edit has overwritten. -/
structure Undo where
  /-- The offset of the slot. -/
  pos : Nat
  /-- The words that were there. -/
  slot : Slot
  /-- The length before. -/
  length : Nat
  deriving DecidableEq, Repr

/-- A program and its last edit. -/
structure Editor where
  /-- The program. -/
  program : Program
  /-- What undoes the last edit. -/
  undo : Option Undo

namespace Editor

/-- An editor with nothing to undo. -/
def ofProgram (p : Program) : Editor := ⟨p, none⟩

/-- Applies an edit and remembers how to undo it. -/
def apply (e : Editor) (edit : Edit) : Editor where
  undo := some ⟨edit.pos, (e.program.slot? edit.pos).getD Slot.zero, e.program.length⟩
  program := e.program.write edit.pos edit.slot edit.length

/-- Undoes the last edit, and tells whether there was one. -/
def rollback (e : Editor) : Editor × Bool :=
  match e.undo with
  | none => (e, false)
  | some u => (⟨e.program.write u.pos u.slot u.length, none⟩, true)

/-- Keeps the last edit. -/
def commit (e : Editor) : Editor := { e with undo := none }

/-- Draws an edit from a generator and applies it. Gives the offset of the slot it wrote. -/
def mutate {ρ : Type} [Generator ρ] (e : Editor) (speed registers : Nat) (g : ρ) :
    Nat × Editor × ρ :=
  let (edit, g) := (Edit.choose e.program.length speed registers).run g
  (edit.pos, e.apply edit, g)

end Editor

end BytecodeSearch
