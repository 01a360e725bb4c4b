import BytecodeSearch.Machine.Basic

/-!
# What instructions do

`Instr.exec` gives the effect of a decoded instruction on a machine and where the run goes next.
Arithmetic is unsigned and wraps, a division by zero gives zero, and a shift takes its amount
modulo 32, so that shifting by sixteen or more empties the register. Operands are read before
the destination is written.
-/

set_option autoImplicit false

namespace BytecodeSearch

/-- The new value of the destination, from the old one and the source. -/
def BinaryOp.apply (op : BinaryOp) (dst src : Word) : Word :=
  match op with
  | add => dst + src
  | sub => dst - src
  | mul => dst * src
  | div => if src = 0 then 0 else dst / src
  | rem => if src = 0 then 0 else dst % src
  | or => dst ||| src
  | and => dst &&& src
  | xor => dst ^^^ src
  | not => ~~~ src
  | shl => (dst.toUInt32 <<< (src.toUInt32 &&& 31)).toUInt16
  | shr => (dst.toUInt32 >>> (src.toUInt32 &&& 31)).toUInt16

/-- Whether a condition holds of two words. -/
def Comparison.holds (rel : Comparison) (a b : Word) : Bool :=
  match rel with
  | greater => a > b
  | less => a < b
  | equal => a == b

/-- Where a run goes behind the instruction at `pos`. -/
inductive Flow (pos : Nat) where
  /-- To the next slot. -/
  | next
  /-- To a jump target. -/
  | jump (target : Target pos)
  /-- Nowhere until the host has answered the query; the answer goes to `dst`. -/
  | pause (query : Word) (dst : Reg)

/-- Takes a jump if the condition holds. -/
def Flow.jumpIf {pos : Nat} (condition : Bool) (target : Target pos) : Flow pos :=
  if condition then .jump target else .next

/-- Runs one instruction. -/
def Instr.exec {σ : Type} [Sensors σ] {pos : Nat} (i : Instr pos) (m : Machine σ) :
    Machine σ × Flow pos :=
  match i with
  | set value dst => (m.put dst value, .next)
  | move src dst => (m.put dst (m.get src), .next)
  | inc dst => (m.put dst (m.get dst + 1), .next)
  | dec dst => (m.put dst (m.get dst - 1), .next)
  | binary op src dst => (m.put dst (op.apply (m.get dst) (m.get src)), .next)
  | read addr dst => (m.put dst (m.memory.read (m.get addr)), .next)
  | write addr src => ({ m with memory := m.memory.write (m.get addr) (m.get src) }, .next)
  | jump target => (m, .jump target)
  | jumpIf rel lhs rhs target => (m, .jumpIf (rel.holds (m.get lhs) (m.get rhs)) target)
  | jumpTest zero reg target => (m, .jumpIf ((m.get reg == 0) == zero) target)
  | echo src => ({ m with output := m.output.push (m.get src) }, .next)
  | ask query dst => (m, .pause (m.get query) dst)
  | sense hook a b dst =>
      match Sensors.sense hook (m.get a) (m.get b) m.host with
      | (some reply, host) => (Machine.put { m with host := host } dst reply, .next)
      | (none, host) => ({ m with host := host }, .next)

end BytecodeSearch
