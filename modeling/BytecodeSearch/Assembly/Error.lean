import BytecodeSearch.Assembly.Statement
import BytecodeSearch.Isa.Slot

/-!
# Assembly errors

What can be wrong with a line of assembly text, and the text of each error.
-/

set_option autoImplicit false

namespace BytecodeSearch

/-- What is wrong with a line. -/
inductive LineError where
  /-- No instruction has this name. -/
  | unknownMnemonic (name : Assembly.Token)
  /-- The instruction takes another number of operands. -/
  | operandCount (op : Opcode) (actual : Nat)
  /-- The operand should be a register. -/
  | expectedRegister (token : Assembly.Token)
  /-- The operand is no sixteen-bit value. -/
  | badImmediate (token : Assembly.Token)
  /-- The label is already defined. -/
  | duplicateLabel (name : Assembly.Token)
  /-- The label is defined nowhere. -/
  | undefinedLabel (name : Assembly.Token)
  /-- The operand reads well but does not fit its slot. -/
  | operand (cause : CodeError)
  deriving DecidableEq

/-- The text of a line error. -/
def LineError.message : LineError → String
  | .unknownMnemonic name => "invalid instruction name: " ++ String.ofList name
  | .operandCount op actual =>
      s!"{op.mnemonic} takes {op.layout.length} operands, got {actual}"
  | .expectedRegister token => "expected register, got " ++ String.ofList token
  | .badImmediate token => "invalid immediate " ++ String.ofList token
  | .duplicateLabel name => "duplicate label " ++ String.ofList name
  | .undefinedLabel name => "undefined label " ++ String.ofList name
  | .operand cause => cause.message

/-- Why a text is not a program. -/
inductive AssemblyError where
  /-- A line is wrong. -/
  | atLine (line : Nat) (cause : LineError)
  /-- The assembled words are no program. -/
  | code (cause : CodeError)
  deriving DecidableEq

/-- The text of an assembly error. -/
def AssemblyError.message : AssemblyError → String
  | .atLine line cause => s!"line {line}: {cause.message}"
  | .code cause => cause.message

end BytecodeSearch
