import BytecodeSearch.Isa.Instr
import BytecodeSearch.Machine.Memory

/-!
# The machine

A machine has eight registers, a data memory, an output that only grows while it runs, and a
host that its sensor instructions talk to. The host is a state of any type with an answer to
every sensor call (`Sensors`); `NoHost` never answers.

`Machine.create` makes a machine, unless its memory is too large; what it makes is
`Machine.fresh`.

The cursor is the offset of the next slot. A machine that waits for the answer to an `in`
instruction remembers the register the answer goes to.
-/

set_option autoImplicit false

namespace BytecodeSearch

/-- The hosts of a machine: what sensor instructions reach. -/
class Sensors (σ : Type) where
  /-- A call with the values of two registers. A reply goes to the destination register. -/
  sense : Hook → Word → Word → σ → Option Word × σ

/-- The host that is not there. -/
structure NoHost where
  deriving DecidableEq, Repr

instance : Sensors NoHost where
  sense _ _ _ host := (none, host)

/-- The register file. -/
abbrev Registers := Vector Word 8

/-- The state of a machine with a host of type `σ`. -/
structure Machine (σ : Type) where
  /-- The registers. -/
  registers : Registers
  /-- The data memory. -/
  memory : Memory
  /-- The words echoed so far. -/
  output : Array Word
  /-- The host. -/
  host : σ
  /-- The offset of the next slot. -/
  cursor : Nat
  /-- The register that waits for an answer. -/
  pending : Option Reg
  /-- The number of instructions run. -/
  steps : Nat

namespace Machine

variable {σ : Type}

/-- A machine at rest, with `size` words of memory. -/
def fresh (size : Nat) (host : σ) : Machine σ where
  registers := Vector.replicate 8 0
  memory := Memory.zero size
  output := #[]
  host := host
  cursor := 0
  pending := none
  steps := 0

/-- Makes a machine at rest, whose memory has to be allocated. -/
def create (size : Nat) (host : σ) : Except Memory.TooLarge (Machine σ) := do
  let memory ← Memory.allocate size
  return { fresh 0 host with memory := memory }

theorem create_of_lt {size : Nat} (h : size < Memory.limit) (host : σ) :
    create size host = .ok (fresh size host) := by
  rw [create, Memory.allocate_of_lt h]
  rfl

theorem create_of_le {size : Nat} (h : Memory.limit ≤ size) (host : σ) :
    create size host = .error ⟨size⟩ := by
  rw [create, Memory.allocate_of_le h]
  rfl

/-- Whether the machine waits for an answer. -/
def isSuspended (m : Machine σ) : Bool := m.pending.isSome

/-- The value of a register. -/
def get (m : Machine σ) (r : Reg) : Word := m.registers[r]

/-- Stores a value in a register. -/
def put (m : Machine σ) (r : Reg) (w : Word) : Machine σ :=
  { m with registers := m.registers.set r w }

/-- Loads the input into memory. -/
def load (m : Machine σ) (input : Array Word) : Machine σ :=
  { m with memory := m.memory.load input }

/-- Zeroes registers, memory, cursor and count, and drops a pending answer. Output and host stay
as they are. -/
def reset (m : Machine σ) : Machine σ :=
  { m with
    registers := Vector.replicate 8 0
    memory := m.memory.clear
    cursor := 0
    pending := none
    steps := 0 }

/-- Forgets the output. -/
def clearOutput (m : Machine σ) : Machine σ := { m with output := #[] }

/-- Stores a value in the register with this index, from outside a run. -/
def setRegister (m : Machine σ) (index : Word) (w : Word) : Except CodeError (Machine σ) :=
  match Reg.ofWord? index with
  | some r => .ok (m.put r w)
  | none => .error (.registerOutOfRange index m.cursor)

end Machine

end BytecodeSearch
