import BytecodeSearch.Program.Basic

/-!
# Listings

The listing of a program has a line for each slot: the number of the slot and a colon, the
mnemonic, and the operands with commas between them. The slot number reads as a label, so a
listing is itself assembly text.
-/

set_option autoImplicit false

namespace BytecodeSearch.Assembly

/-- The text of the operands of a slot. -/
def operandTexts (op : Opcode) (s : Slot) : List (List Char) :=
  List.zipWith (fun kind w => kind.render w) op.layout s.args

/-- Operand texts behind a mnemonic: a blank before the first, a comma and a blank before each
of the others. -/
def joinOperands : List (List Char) → List Char
  | [] => []
  | o :: os => ' ' :: o ++ os.flatMap fun o => ',' :: ' ' :: o

/-- The line of slot number `i`. -/
def listingLine (i : Nat) (op : Opcode) (s : Slot) : List Char :=
  Nat.toDigits 10 i ++ ':' :: ' ' :: op.mnemonic.toList ++ joinOperands (operandTexts op s) ++
    ['\n']

/-- The listing of the first `length` words of `code`, which have to be valid. -/
def listing (code : Array Word) (length : Nat) : Except CodeError (List Char) := do
  let ops ← Code.opcodes code length
  return ops.zipIdx.flatMap fun x => listingLine x.2 x.1 (Slot.read code (slotWidth * x.2))

/-- The listing as text. -/
def disassemble (code : Array Word) (length : Nat) : Except CodeError String :=
  (listing code length).map String.ofList

end BytecodeSearch.Assembly

/-- The listing of a program. -/
def BytecodeSearch.Program.disassemble (p : Program) : Except CodeError String :=
  Assembly.disassemble p.code p.length
