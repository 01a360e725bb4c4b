/-!
# The instruction set as a table

Every instruction has an opcode word, a mnemonic and an operand layout: the kinds of the
argument words it uses, source first and destination last. Checking, listing, assembling and
random editing of code all read this one table; the meaning of the instructions is in
`BytecodeSearch.Machine.Exec`.

`Opcode.ofWord?_eq_some_iff` pins down the numbering: reading an opcode word is the inverse of
writing it.
-/

set_option autoImplicit false

namespace BytecodeSearch

/-- A machine word: sixteen bits, unsigned. All arithmetic on words wraps. -/
abbrev Word := UInt16

/-- How an argument word of an instruction is read. -/
inductive OperandKind where
  /-- The index of a register. -/
  | register
  /-- A plain sixteen-bit value. -/
  | immediate
  /-- The word offset of a later slot. -/
  | target
  deriving DecidableEq, Repr

/-- The instructions, in opcode order. -/
inductive Opcode where
  | set | move
  | inc | dec | add | sub
  | read | write
  | jump | jumpGreater | jumpLess | jumpEqual | jumpZero | jumpNonzero
  | echo
  | or | and | xor | not
  | mul | div | rem | shl | shr
  | ask
  | out | step | eat | clone
  deriving DecidableEq, Repr

namespace Opcode

/-- Every instruction, in opcode order. -/
def all : Array Opcode := #[
  set, move, inc, dec, add, sub, read, write,
  jump, jumpGreater, jumpLess, jumpEqual, jumpZero, jumpNonzero,
  echo, or, and, xor, not, mul, div, rem, shl, shr,
  ask, out, step, eat, clone]

/-- The number of instructions. -/
def count : Nat := 29

/-- The opcode word of an instruction: its place in the table. -/
def word (op : Opcode) : Word := UInt16.ofNat op.ctorIdx

/-- The instruction an opcode word stands for. -/
def ofWord? (w : Word) : Option Opcode := all[w.toNat]?

/-- The name of an instruction in assembly text. -/
def mnemonic : Opcode → String
  | set => "set"
  | move => "move"
  | inc => "inc"
  | dec => "dec"
  | add => "add"
  | sub => "sub"
  | read => "read"
  | write => "write"
  | jump => "jump"
  | jumpGreater => "jumpg"
  | jumpLess => "jumpl"
  | jumpEqual => "jumpe"
  | jumpZero => "jumpz"
  | jumpNonzero => "jumpn"
  | echo => "echo"
  | or => "or"
  | and => "and"
  | xor => "xor"
  | not => "not"
  | mul => "mul"
  | div => "div"
  | rem => "rem"
  | shl => "shl"
  | shr => "shr"
  | ask => "in"
  | out => "out"
  | step => "step"
  | eat => "eat"
  | clone => "clone"

open OperandKind in
/-- The kinds of the argument words an instruction uses, in slot order. The argument words past
the layout are unused. -/
def layout : Opcode → List OperandKind
  | set => [immediate, register]
  | inc | dec | echo => [register]
  | jump => [target]
  | jumpZero | jumpNonzero => [register, target]
  | jumpGreater | jumpLess | jumpEqual => [register, register, target]
  | out | step | eat | clone => [register, register, register]
  | move | add | sub | read | write | or | and | xor | not | mul | div | rem | shl | shr | ask =>
      [register, register]

/-- Whether an instruction carries a jump target. -/
def isJump (op : Opcode) : Bool := op.layout.contains .target

/-- The instruction with this mnemonic, in either case of the ASCII letters. -/
def ofMnemonic? (name : List Char) : Option Opcode :=
  all.find? fun op => op.mnemonic.toList == name.map Char.toLower

/-! ## The table is its own index -/

theorem word_lt_count (op : Opcode) : op.word.toNat < count := by
  cases op <;> decide

/-- Reading the opcode word of an instruction gives the instruction back. -/
@[simp] theorem ofWord?_word (op : Opcode) : ofWord? op.word = some op := by
  cases op <;> rfl

/-- The entry at place `i` of the table has opcode word `i`. -/
theorem toNat_word_all : ∀ i : Fin all.size, all[i].word.toNat = i.val := by decide

/-- A word is read as an instruction exactly when it is the opcode word of that instruction. -/
theorem ofWord?_eq_some_iff {w : Word} {op : Opcode} : ofWord? w = some op ↔ w = op.word := by
  refine ⟨fun h => ?_, fun h => h ▸ ofWord?_word op⟩
  obtain ⟨hlt, rfl⟩ := Array.getElem?_eq_some_iff.mp h
  exact UInt16.toNat_inj.mp (toNat_word_all ⟨w.toNat, hlt⟩).symm

/-- No instruction uses more than the three argument words of a slot. -/
theorem length_layout_le (op : Opcode) : op.layout.length ≤ 3 := by
  cases op <;> decide

end Opcode

end BytecodeSearch
