import BytecodeSearch.Assembly.Labels
import BytecodeSearch.Program.Basic
import BytecodeSearch.Text.Numeral

/-!
# Assembling

`assemble` reads assembly text as a program: first the labels of the whole text, then its
instructions in order. A register is `r` and its number, an immediate is a number, and a target
is `l` and the number of a slot, or a label.
-/

set_option autoImplicit false

namespace BytecodeSearch.Assembly

/-- One more than the largest sixteen-bit value. -/
def wordBound : Nat := 1 <<< 16

/-- One more than the largest slot number. -/
def slotNumberBound : Nat := 1 <<< 64

/-- Reads a register. -/
def parseRegister (t : Token) : Except LineError Word :=
  match t with
  | 'r' :: number =>
      match Numeral.read? wordBound number with
      | some n => .ok (UInt16.ofNat n)
      | none => .error (.expectedRegister t)
  | _ => .error (.expectedRegister t)

/-- Reads an immediate. -/
def parseImmediate (t : Token) : Except LineError Word :=
  match Numeral.read? wordBound t with
  | some n => .ok (UInt16.ofNat n)
  | none => .error (.badImmediate t)

/-- The number in a token of the form `l` and a slot number. -/
def slotNumber? : Token → Option Nat
  | 'l' :: number => Numeral.read? slotNumberBound number
  | _ => none

/-- The offset a target token stands for. -/
def targetOffset (labels : Labels) (t : Token) : Except LineError Nat :=
  match slotNumber? t with
  | some slot => .ok (slot * slotWidth)
  | none =>
      match labels[t]? with
      | some offset => .ok offset
      | none => .error (.undefinedLabel t)

/-- Reads a target, whose offset has to fit a word. -/
def parseTarget (labels : Labels) (t : Token) : Except LineError Word := do
  let offset ← targetOffset labels t
  if offset < wordBound then return UInt16.ofNat offset else throw (.badImmediate t)

/-- Reads an operand of the given kind. -/
def parseWord (labels : Labels) (t : Token) : OperandKind → Except LineError Word
  | .register => parseRegister t
  | .immediate => parseImmediate t
  | .target => parseTarget labels t

/-- Reads an operand for the slot at `pos` and checks that it fits there. -/
def parseOperand (labels : Labels) (pos : Nat) (kind : OperandKind) (t : Token) :
    Except LineError Word := do
  let w ← parseWord labels t kind
  match kind.check pos w with
  | .ok () => return w
  | .error e => throw (.operand e)

/-- Reads the operands of the slot at `pos`, left to right. -/
def parseOperands (labels : Labels) (pos : Nat) :
    List OperandKind → List Token → Except LineError (List Word)
  | kind :: kinds, t :: ts => do
      let w ← parseOperand labels pos kind t
      let ws ← parseOperands labels pos kinds ts
      return w :: ws
  | _, _ => .ok []

/-- Reads the instruction of the slot at `pos`. -/
def parseCommand (labels : Labels) (pos : Nat) (c : Command) : Except LineError Slot :=
  match Opcode.ofMnemonic? c.mnemonic with
  | none => .error (.unknownMnemonic c.mnemonic)
  | some op =>
      if c.operands.length = op.layout.length then do
        let args ← parseOperands labels pos op.layout c.operands
        return Slot.ofArgs op args
      else .error (.operandCount op c.operands.length)

/-- Reads the instructions of a text into slots. -/
def parseSlots (labels : Labels) (cs : List (Nat × Command)) :
    Except AssemblyError (List Slot) :=
  cs.zipIdx.mapM fun x =>
    match parseCommand labels (slotWidth * x.2) x.1.2 with
    | .ok s => .ok s
    | .error e => .error (.atLine x.1.1 e)

/-- The program of an assembly text. -/
def assemble (source : String) : Except AssemblyError Program := do
  let sts := statements source.toList
  let labels ← labelTable sts
  let slots ← parseSlots labels (commands sts)
  match Program.ofWords (slots.flatMap Slot.words).toArray with
  | .ok p => return p
  | .error e => throw (.code e)

end BytecodeSearch.Assembly
