import BytecodeSearch.Machine.Run
import BytecodeSearch.Proofs.Isa.Decode
import Mathlib

/-!
# Instructions in numbers

The tables of the instruction set speak of numbers: registers and memory words hold numbers below 65536,
sums, differences, products and left shifts are taken modulo 65536, a quotient by zero is zero, and an
address counts modulo the size of the memory. `Numeric` is the state of a machine in numbers, and
`Numeric.perform` is what the tables say of each opcode and the numbers behind it.

`Machine.numeric` reads a machine as numbers, and loses nothing (`numeric_injective`). Each operation on
words is the one on numbers (`BinaryOp.toNat_apply` and the lemmas beside it), and so every decoded
instruction does what its line of the tables says (`perform_of_decodeArgs`).
-/

set_option autoImplicit false

namespace BytecodeSearch

/-! ## Operations on numbers -/

/-- A number modulo 65536. -/
def wrap (n : Int) : Nat := (n % 65536).toNat

/-- The new number in the destination, from the old one and that of the source. -/
def BinaryOp.onNumbers (op : BinaryOp) (dst src : Nat) : Nat :=
  match op with
  | add => wrap (dst + src)
  | sub => wrap (dst - src)
  | mul => wrap (dst * src)
  | div => if src = 0 then 0 else dst / src
  | rem => if src = 0 then 0 else dst % src
  | or => dst ||| src
  | and => dst &&& src
  | xor => dst ^^^ src
  | not => 65535 - src
  | shl => wrap (dst * 2 ^ (src % 32))
  | shr => dst / 2 ^ (src % 32)

/-- Whether a condition holds of two numbers. -/
def Comparison.onNumbers (rel : Comparison) (a b : Nat) : Bool :=
  match rel with
  | greater => a > b
  | less => a < b
  | equal => a = b

theorem wrap_natCast (n : Nat) : wrap n = n % 65536 := by
  simp only [wrap]
  omega

theorem toNat_add (x y : Word) : (x + y).toNat = wrap (x.toNat + y.toNat) := by
  rw [UInt16.toNat_add, ← Nat.cast_add, wrap_natCast]

theorem toNat_sub (x y : Word) : (x - y).toNat = wrap (x.toNat - y.toNat) := by
  have hx := x.toNat_lt
  have hy := y.toNat_lt
  -- words are subtracted by adding the complement, so no number is below zero
  rw [UInt16.toNat_sub, wrap]
  omega

theorem toNat_mul (x y : Word) : (x * y).toNat = wrap (x.toNat * y.toNat) := by
  rw [UInt16.toNat_mul, ← Nat.cast_mul, wrap_natCast]

/-- A shift takes its amount from the low five bits. -/
theorem toNat_amount (x : Word) : (x.toUInt32 &&& 31).toNat = x.toNat % 32 := by
  rw [UInt32.toNat_and, UInt16.toNat_toUInt32]
  exact Nat.and_two_pow_sub_one_eq_mod x.toNat 5

theorem toNat_shiftLeft (x y : Word) :
    (x.toUInt32 <<< (y.toUInt32 &&& 31)).toUInt16.toNat =
      wrap (x.toNat * 2 ^ (y.toNat % 32)) := by
  have hcast : (x.toNat : Int) * 2 ^ (y.toNat % 32) = (x.toNat * 2 ^ (y.toNat % 32) : Nat) := by
    rw [Nat.cast_mul, Nat.cast_pow, Nat.cast_ofNat]
  -- the bits that 32 bits lose are lost by sixteen as well
  rw [UInt32.toNat_toUInt16, UInt32.toNat_shiftLeft, toNat_amount, UInt16.toNat_toUInt32,
    Nat.mod_mod, Nat.shiftLeft_eq, hcast, wrap_natCast]
  exact Nat.mod_mod_of_dvd _ (by decide)

theorem toNat_shiftRight (x y : Word) :
    (x.toUInt32 >>> (y.toUInt32 &&& 31)).toUInt16.toNat = x.toNat / 2 ^ (y.toNat % 32) := by
  have hsmall : x.toNat / 2 ^ (y.toNat % 32) < 65536 :=
    Nat.lt_of_le_of_lt (Nat.div_le_self _ _) x.toNat_lt
  rw [UInt32.toNat_toUInt16, UInt32.toNat_shiftRight, toNat_amount, UInt16.toNat_toUInt32,
    Nat.mod_mod, Nat.shiftRight_eq_div_pow]
  exact Nat.mod_eq_of_lt hsmall

/-- An operation on words is the operation on their numbers. -/
theorem BinaryOp.toNat_apply (op : BinaryOp) (dst src : Word) :
    (op.apply dst src).toNat = op.onNumbers dst.toNat src.toNat := by
  have hzero : src = 0 ↔ src.toNat = 0 := UInt16.toNat_inj.symm
  cases op with
  | add => exact toNat_add dst src
  | sub => exact toNat_sub dst src
  | mul => exact toNat_mul dst src
  | div =>
      simp only [apply, onNumbers, hzero]
      split
      · rfl
      · exact UInt16.toNat_div dst src
  | rem =>
      simp only [apply, onNumbers, hzero]
      split
      · rfl
      · exact UInt16.toNat_mod dst src
  | or => exact UInt16.toNat_or dst src
  | and => exact UInt16.toNat_and dst src
  | xor => exact UInt16.toNat_xor dst src
  | not =>
      simp only [apply, onNumbers, UInt16.toNat_not]
      rfl
  | shl => exact toNat_shiftLeft dst src
  | shr => exact toNat_shiftRight dst src

theorem Comparison.holds_eq (rel : Comparison) (a b : Word) :
    rel.holds a b = rel.onNumbers a.toNat b.toNat := by
  cases rel with
  | greater => rfl
  | less => rfl
  | equal => exact decide_eq_decide.mpr UInt16.toNat_inj.symm

/-! ## Machines in numbers -/

/-- The state of a machine, with numbers for its words and its registers. -/
structure Numeric (σ : Type) where
  /-- The numbers in the registers. -/
  registers : List Nat
  /-- The numbers in memory. -/
  memory : List Nat
  /-- The numbers echoed so far. -/
  output : List Nat
  /-- The host. -/
  host : σ
  /-- The offset of the next slot. -/
  cursor : Nat
  /-- The number of the register that waits for an answer. -/
  pending : Option Nat
  /-- The number of instructions run. -/
  steps : Nat

/-- Where a run goes behind an instruction. -/
inductive Course where
  /-- To the next slot. -/
  | next
  /-- To the slot at an offset. -/
  | jump (target : Nat)
  /-- Nowhere until a query is answered; the answer goes to the register `dst`. -/
  | pause (query dst : Nat)

/-- Jumps if the condition holds. -/
def Course.jumpIf (condition : Bool) (target : Nat) : Course :=
  if condition then .jump target else .next

namespace Numeric

variable {σ : Type}

/-- The number in register `r`. -/
def get (s : Numeric σ) (r : Nat) : Nat := s.registers.getD r 0

/-- Puts a number in register `r`. -/
def put (s : Numeric σ) (r n : Nat) : Numeric σ := { s with registers := s.registers.set r n }

/-- The number at an address modulo the size of the memory; zero if there is no memory. -/
def load (s : Numeric σ) (addr : Nat) : Nat :=
  if s.memory.length = 0 then 0 else s.memory.getD (addr % s.memory.length) 0

/-- Stores a number at an address modulo the size of the memory; without memory it is lost. -/
def store (s : Numeric σ) (addr n : Nat) : Numeric σ :=
  if s.memory.length = 0 then s
  else { s with memory := s.memory.set (addr % s.memory.length) n }

/-- Combines the destination with the source. -/
def combine (s : Numeric σ) (op : BinaryOp) (src dst : Nat) : Numeric σ :=
  s.put dst (op.onNumbers (s.get dst) (s.get src))

/-- Calls the host once, with the numbers in two registers; a reply goes to a third. -/
def sense [Sensors σ] (s : Numeric σ) (hook : Hook) (a b dst : Nat) : Numeric σ :=
  match Sensors.sense hook (UInt16.ofNat (s.get a)) (UInt16.ofNat (s.get b)) s.host with
  | (some reply, host) => put { s with host := host } dst reply.toNat
  | (none, host) => { s with host := host }

/-- **The tables of the instruction set**: what an opcode does with the three numbers behind it. -/
def perform [Sensors σ] (s : Numeric σ) (op : Opcode) (a b c : Nat) : Numeric σ × Course :=
  match op with
  | .set => (s.put b a, .next)
  | .move => (s.put b (s.get a), .next)
  | .inc => (s.put a (wrap (s.get a + 1)), .next)
  | .dec => (s.put a (wrap (s.get a - 1)), .next)
  | .add => (s.combine .add a b, .next)
  | .sub => (s.combine .sub a b, .next)
  | .read => (s.put b (s.load (s.get a)), .next)
  | .write => (s.store (s.get a) (s.get b), .next)
  | .jump => (s, .jump a)
  | .jumpGreater => (s, .jumpIf (Comparison.greater.onNumbers (s.get a) (s.get b)) c)
  | .jumpLess => (s, .jumpIf (Comparison.less.onNumbers (s.get a) (s.get b)) c)
  | .jumpEqual => (s, .jumpIf (Comparison.equal.onNumbers (s.get a) (s.get b)) c)
  | .jumpZero => (s, .jumpIf (s.get a = 0) b)
  | .jumpNonzero => (s, .jumpIf (s.get a ≠ 0) b)
  | .echo => ({ s with output := s.output ++ [s.get a] }, .next)
  | .or => (s.combine .or a b, .next)
  | .and => (s.combine .and a b, .next)
  | .xor => (s.combine .xor a b, .next)
  | .not => (s.combine .not a b, .next)
  | .mul => (s.combine .mul a b, .next)
  | .div => (s.combine .div a b, .next)
  | .rem => (s.combine .rem a b, .next)
  | .shl => (s.combine .shl a b, .next)
  | .shr => (s.combine .shr a b, .next)
  | .ask => (s, .pause (s.get a) b)
  | .out => (s.sense .out a b c, .next)
  | .step => (s.sense .step a b c, .next)
  | .eat => (s.sense .eat a b c, .next)
  | .clone => (s.sense .clone a b c, .next)

/-! ## What an instruction leaves alone -/

theorem get_put_ne (s : Numeric σ) {r q : Nat} (n : Nat) (h : q ≠ r) : (s.put r n).get q = s.get q := by
  rw [get, get, put, List.getD_eq_getElem?_getD, List.getD_eq_getElem?_getD,
    List.getElem?_set_ne h.symm]

theorem memory_sense [Sensors σ] (s : Numeric σ) (hook : Hook) (a b dst : Nat) :
    (s.sense hook a b dst).memory = s.memory := by
  unfold sense
  split <;> rfl

theorem get_sense_ne [Sensors σ] (s : Numeric σ) (hook : Hook) (a b : Nat) {dst q : Nat}
    (h : q ≠ dst) : (s.sense hook a b dst).get q = s.get q := by
  unfold sense
  split
  · exact get_put_ne _ _ h
  · rfl

theorem length_store (s : Numeric σ) (addr n : Nat) :
    (s.store addr n).memory.length = s.memory.length := by
  unfold store
  split
  · rfl
  · exact List.length_set

theorem getD_store_ne (s : Numeric σ) {addr i : Nat} (n : Nat) (h : i ≠ addr % s.memory.length) :
    (s.store addr n).memory.getD i 0 = s.memory.getD i 0 := by
  unfold store
  split
  · rfl
  · rw [List.getD_eq_getElem?_getD, List.getD_eq_getElem?_getD, List.getElem?_set_ne h.symm]

/-- The last of the numbers behind an opcode that are used. -/
def lastOperand (op : Opcode) (a b c : Nat) : Nat := [a, b, c].getD (op.layout.length - 1) 0

/-- An instruction changes the register of its last operand at most, unless it is a write, which changes
memory at most. -/
theorem perform_frame [Sensors σ] (s : Numeric σ) (op : Opcode) (a b c : Nat) :
    (s.perform op a b c).1.memory = s.memory ∧
        (∀ r, r ≠ lastOperand op a b c → (s.perform op a b c).1.get r = s.get r) ∨
      op = .write ∧ (s.perform op a b c).1 = s.store (s.get a) (s.get b) := by
  cases op with
  | write => exact .inr ⟨rfl, rfl⟩
  | out | step | eat | clone =>
      exact .inl ⟨memory_sense s _ a b c, fun r hr => get_sense_ne s _ a b hr⟩
  | jump | jumpGreater | jumpLess | jumpEqual | jumpZero | jumpNonzero | echo | ask =>
      exact .inl ⟨rfl, fun _ _ => rfl⟩
  | set | move | inc | dec | add | sub | read | or | and | xor | not | mul | div | rem | shl | shr =>
      exact .inl ⟨rfl, fun r hr => get_put_ne s _ hr⟩

end Numeric

namespace Machine

variable {σ : Type}

/-- The machine in numbers. -/
def numeric (m : Machine σ) : Numeric σ where
  registers := m.registers.toList.map UInt16.toNat
  memory := m.memory.words.toList.map UInt16.toNat
  output := m.output.toList.map UInt16.toNat
  host := m.host
  cursor := m.cursor
  pending := m.pending.map Fin.val
  steps := m.steps

theorem map_toNat_injective : Function.Injective (List.map UInt16.toNat) :=
  List.map_injective_iff.mpr fun _ _ => UInt16.toNat_inj.mp

theorem registers_eq_of_numeric {m t : Machine σ}
    (h : t.numeric.registers = m.numeric.registers) : t.registers = m.registers :=
  Vector.toList_inj.mp (map_toNat_injective h)

theorem memory_eq_of_numeric {m t : Machine σ} (h : t.numeric.memory = m.numeric.memory) :
    t.memory = m.memory :=
  congrArg Memory.mk (Array.toList_inj.mp (map_toNat_injective h))

/-- A machine is told by its numbers. -/
theorem numeric_injective : Function.Injective (numeric : Machine σ → Numeric σ) := by
  intro m t h
  have hregisters := registers_eq_of_numeric (congrArg Numeric.registers h)
  have hmemory := memory_eq_of_numeric (congrArg Numeric.memory h)
  have houtput := Array.toList_inj.mp (map_toNat_injective (congrArg Numeric.output h))
  have hpending := Option.map_injective Fin.val_injective (congrArg Numeric.pending h)
  have hrest : m.host = t.host ∧ m.cursor = t.cursor ∧ m.steps = t.steps :=
    ⟨congrArg Numeric.host h, congrArg Numeric.cursor h, congrArg Numeric.steps h⟩
  cases m
  cases t
  simp only at hregisters hmemory houtput hpending hrest
  obtain ⟨rfl, rfl, rfl⟩ := hrest
  rw [hregisters, hmemory, houtput, hpending]

theorem get_numeric (m : Machine σ) (r : Reg) : m.numeric.get r.val = (m.get r).toNat := by
  have hr : r.val < m.registers.toList.length := by
    rw [Vector.length_toList]
    exact r.isLt
  rw [Numeric.get, numeric, List.getD_eq_getElem _ _ (by rwa [List.length_map]), List.getElem_map,
    Vector.getElem_toList]
  rfl

theorem numeric_put (m : Machine σ) (r : Reg) (w : Word) :
    (m.put r w).numeric = m.numeric.put r.val w.toNat := by
  simp only [numeric, put, Numeric.put, Vector.toList_set, List.map_set]

theorem length_numeric_memory (m : Machine σ) : m.numeric.memory.length = m.memory.size := by
  rw [numeric, List.length_map, Array.length_toList]
  rfl

theorem getD_numeric_memory (m : Machine σ) (i : Nat) :
    m.numeric.memory.getD i 0 = (m.memory.words.getD i 0).toNat := by
  rw [numeric, List.getD_eq_getElem?_getD, Array.getD_eq_getD_getElem?, List.getElem?_map,
    Array.getElem?_toList]
  cases m.memory.words[i]? with
  | none => rfl
  | some w => rfl

theorem numeric_load (m : Machine σ) (addr : Word) :
    m.numeric.load addr.toNat = (m.memory.read addr).toNat := by
  rw [Numeric.load, length_numeric_memory, getD_numeric_memory]
  split
  · -- there is no word at any address
    rename_i hnone
    have hempty : m.memory.words = #[] := Array.eq_empty_of_size_eq_zero hnone
    rw [Memory.read, hempty]
    rfl
  · rfl

theorem numeric_store (m : Machine σ) (addr w : Word) :
    ({ m with memory := m.memory.write addr w } : Machine σ).numeric =
      m.numeric.store addr.toNat w.toNat := by
  rw [Numeric.store, length_numeric_memory]
  split
  · rename_i hnone
    have hempty : m.memory.words = #[] := Array.eq_empty_of_size_eq_zero hnone
    simp only [numeric, Memory.write, hempty]
    rfl
  · simp only [numeric, Memory.write, Array.toList_setIfInBounds, List.map_set]

theorem numeric_push (m : Machine σ) (w : Word) :
    ({ m with output := m.output.push w } : Machine σ).numeric =
      { m.numeric with output := m.numeric.output ++ [w.toNat] } := by
  simp only [numeric, Array.toList_push, List.map_append, List.map_cons, List.map_nil]

variable [Sensors σ]

theorem numeric_sense {pos : Nat} (m : Machine σ) (hook : Hook) (a b dst : Reg) :
    ((.sense hook a b dst : Instr pos).exec m).1.numeric =
      m.numeric.sense hook a.val b.val dst.val := by
  rw [Numeric.sense, get_numeric, get_numeric, UInt16.ofNat_toNat, UInt16.ofNat_toNat]
  simp only [Instr.exec, numeric]
  cases Sensors.sense hook (m.get a) (m.get b) m.host with
  | mk reply host =>
      cases reply with
      | none => rfl
      | some w => exact numeric_put { m with host := host } dst w

end Machine

/-- Where a run goes, in numbers. -/
def Flow.course {pos : Nat} : Flow pos → Course
  | .next => .next
  | .jump target => .jump target.word.toNat
  | .pause query dst => .pause query.toNat dst.val

theorem Flow.course_jumpIf {pos : Nat} (condition : Bool) (target : Target pos) :
    (Flow.jumpIf condition target).course = Course.jumpIf condition target.word.toNat := by
  cases condition <;> rfl

namespace Slot

variable {σ : Type} [Sensors σ] {pos : Nat} {s : Slot} {i : Instr pos}

open Machine

theorem numeric_of_binary {op : BinaryOp} (h : s.decode2 (.binary op) = .ok i) (m : Machine σ) :
    ((i.exec m).1.numeric, (i.exec m).2.course) =
      (m.numeric.combine op s.arg1.toNat s.arg2.toNat, .next) := by
  obtain ⟨a, b, ha, hb, rfl⟩ := decode2_eq_ok h
  simp only [Instr.exec, Flow.course, numeric_put, Numeric.combine, BinaryOp.toNat_apply, ← ha, ← hb,
    get_numeric]

theorem numeric_of_compare {rel : Comparison} (h : s.decodeCompare rel = .ok i) (m : Machine σ) :
    ((i.exec m).1.numeric, (i.exec m).2.course) =
      (m.numeric, .jumpIf (rel.onNumbers (m.numeric.get s.arg1.toNat)
        (m.numeric.get s.arg2.toNat)) s.arg3.toNat) := by
  obtain ⟨a, b, t, ha, hb, ht, rfl⟩ := decodeCompare_eq_ok h
  simp only [Instr.exec, Flow.course_jumpIf, Comparison.holds_eq, ← ha, ← hb, ← ht, get_numeric]

theorem numeric_of_test {zero : Bool} (h : s.decodeTest zero = .ok i) (m : Machine σ) :
    ((i.exec m).1.numeric, (i.exec m).2.course) =
      (m.numeric, .jumpIf (decide (m.numeric.get s.arg1.toNat = 0) == zero) s.arg2.toNat) := by
  obtain ⟨a, t, ha, ht, rfl⟩ := decodeTest_eq_ok h
  have hzero : (m.get a == 0) = decide ((m.get a).toNat = 0) :=
    decide_eq_decide.mpr UInt16.toNat_inj.symm
  simp only [Instr.exec, Flow.course_jumpIf, ← ha, ← ht, get_numeric, hzero]

theorem numeric_of_sense {hook : Hook} (h : s.decode3 (.sense hook) = .ok i) (m : Machine σ) :
    ((i.exec m).1.numeric, (i.exec m).2.course) =
      (m.numeric.sense hook s.arg1.toNat s.arg2.toNat s.arg3.toNat, .next) := by
  obtain ⟨a, b, c, ha, hb, hc, rfl⟩ := decode3_eq_ok h
  rw [numeric_sense, ← ha, ← hb, ← hc]
  simp only [Instr.exec]
  split <;> rfl

/-- **A decoded instruction does what its line of the tables says**, to the machine and in the course
of the run. -/
theorem perform_of_decodeArgs {op : Opcode} (h : s.decodeArgs pos op = .ok i) (m : Machine σ) :
    ((i.exec m).1.numeric, (i.exec m).2.course) =
      m.numeric.perform op s.arg1.toNat s.arg2.toNat s.arg3.toNat := by
  cases op with
  | add | sub | or | and | xor | not | mul | div | rem | shl | shr => exact numeric_of_binary h m
  | jumpGreater | jumpLess | jumpEqual => exact numeric_of_compare h m
  | out | step | eat | clone => exact numeric_of_sense h m
  | jumpZero =>
      rw [numeric_of_test h m, beq_true]
      rfl
  | jumpNonzero =>
      rw [numeric_of_test h m, beq_false, ← decide_not]
      rfl
  | set =>
      obtain ⟨dst, hdst, rfl⟩ := decode1_eq_ok h
      simp only [Instr.exec, Flow.course, numeric_put, Numeric.perform, ← hdst]
  | inc =>
      obtain ⟨dst, hdst, rfl⟩ := decode1_eq_ok h
      simp only [Instr.exec, Flow.course, numeric_put, Numeric.perform, toNat_add, ← hdst,
        get_numeric]
      rfl
  | dec =>
      obtain ⟨dst, hdst, rfl⟩ := decode1_eq_ok h
      simp only [Instr.exec, Flow.course, numeric_put, Numeric.perform, toNat_sub, ← hdst,
        get_numeric]
      rfl
  | move =>
      obtain ⟨src, dst, hsrc, hdst, rfl⟩ := decode2_eq_ok h
      simp only [Instr.exec, Flow.course, numeric_put, Numeric.perform, ← hsrc, ← hdst, get_numeric]
  | read =>
      obtain ⟨addr, dst, haddr, hdst, rfl⟩ := decode2_eq_ok h
      simp only [Instr.exec, Flow.course, numeric_put, Numeric.perform, ← haddr, ← hdst, get_numeric,
        numeric_load]
  | write =>
      obtain ⟨addr, src, haddr, hsrc, rfl⟩ := decode2_eq_ok h
      simp only [Instr.exec, Flow.course, numeric_store, Numeric.perform, ← haddr, ← hsrc,
        get_numeric]
  | jump =>
      obtain ⟨t, ht, rfl⟩ := decodeArgs_jump_eq_ok h
      simp only [Instr.exec, Flow.course, Numeric.perform, ht]
  | echo =>
      obtain ⟨src, hsrc, rfl⟩ := decode1_eq_ok h
      simp only [Instr.exec, Flow.course, numeric_push, Numeric.perform, ← hsrc, get_numeric]
  | ask =>
      obtain ⟨query, dst, hquery, hdst, rfl⟩ := decode2_eq_ok h
      simp only [Instr.exec, Flow.course, Numeric.perform, ← hquery, ← hdst, get_numeric]

end Slot

end BytecodeSearch
