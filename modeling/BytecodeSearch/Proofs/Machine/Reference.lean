import BytecodeSearch.Proofs.Machine.Calls
import BytecodeSearch.Proofs.Machine.Numeric

/-!
# Runs in numbers

A run is the iteration of one function on numbers. `Numeric.step` runs a slot as the tables of the
instruction set say, after a check of its operands; `Numeric.turn` does that while the run goes on, moves
the cursor, and does nothing any more when the run has an end. `run` and `resume` of the machine compute
what this iteration comes to, and a turn for each slot of the program and one more are enough for it
(`reference_semantics`). A step changes the register its last operand names at most, or else one word of
memory (`slotFrame_step`).
-/

set_option autoImplicit false

namespace BytecodeSearch

/-- Why a run has ended, in numbers. -/
inductive Stop where
  /-- The cursor has reached the end of the program. -/
  | completed
  /-- The run waits for the value of a register, and goes on from the cursor. -/
  | suspended (register query cursor : Nat)
  deriving DecidableEq, Repr

/-- What a run comes to: the machine, and what has ended the run, if it has an end. -/
abbrev Numeric.Run (σ : Type) := Numeric σ × Option (Except RunError Stop)

namespace Numeric

variable {σ : Type} [Sensors σ]

/-! ## The reference -/

/-- Runs the slot at the cursor, if it passes the check. A slot with a known opcode is counted. -/
def step (code : Array Word) (s : Numeric σ) : Numeric σ × Except CodeError Course :=
  let slot := Slot.read code s.cursor
  match Opcode.ofWord? slot.opcode with
  | none => (s, .error (.unknownOpcode slot.opcode s.cursor))
  | some op =>
      let counted := { s with steps := s.steps + 1 }
      match Slot.checkArgs s.cursor op.layout slot.args with
      | .error e => (counted, .error e)
      | .ok () =>
          let (done, course) := counted.perform op slot.arg1.toNat slot.arg2.toNat slot.arg3.toNat
          (done, .ok course)

/-- One turn of a run that has no end yet. -/
def turn (code : Array Word) (length : Nat) : Run σ → Run σ
  | (s, some result) => (s, some result)
  | (s, none) =>
      if s.cursor < length then
        match s.step code with
        | (t, .error e) => (t, some (.error (.code e)))
        | (t, .ok .next) => ({ t with cursor := s.cursor + slotWidth }, none)
        | (t, .ok (.jump target)) => ({ t with cursor := target }, none)
        | (t, .ok (.pause query dst)) =>
            ({ t with cursor := s.cursor + slotWidth, pending := some dst },
              some (.ok (.suspended dst query (s.cursor + slotWidth))))
      else (s, some (.ok .completed))

/-- The run that starts at a cursor, unless that is between slots. -/
def start (s : Numeric σ) (cursor : Nat) : Run σ :=
  if cursor % slotWidth = 0 then ({ s with cursor := cursor }, none)
  else (s, some (.error (.misalignedCursor cursor)))

/-- The run of a call at a cursor, unless the machine waits. -/
def run (s : Numeric σ) (cursor : Nat) : Run σ :=
  if s.pending.isSome then (s, some (.error (.alreadySuspended s.cursor))) else s.start cursor

/-- The run of an answer, which goes to the register that waits, if one does. -/
def resume (s : Numeric σ) (answer : Nat) : Run σ :=
  match s.pending with
  | none => (s, some (.error .notSuspended))
  | some dst => (put { s with pending := none } dst answer).start s.cursor

theorem iterate_turn_ended (code : Array Word) (length k : Nat) (s : Numeric σ)
    (result : Except RunError Stop) :
    (turn code length)^[k] (s, some result) = (s, some result) :=
  Function.iterate_fixed rfl k

end Numeric

/-- Why a run has ended, read as numbers. -/
def Halt.stop : Halt → Stop
  | .completed => .completed
  | .suspended register query cursor => .suspended register.val query.toNat cursor

theorem Halt.stop_injective : Function.Injective Halt.stop := by
  rintro (_ | ⟨register, query, cursor⟩) (_ | ⟨register', query', cursor'⟩) h
  · rfl
  · cases h
  · cases h
  · obtain ⟨hregister, hquery, rfl⟩ := Stop.suspended.inj h
    rw [Fin.ext hregister, UInt16.toNat_inj.mp hquery]

namespace Machine

variable {σ : Type}

/-- What a call of the machine comes to, in numbers. -/
def inNumbers (call : Machine σ × Except RunError Halt) : Numeric.Run σ :=
  (call.1.numeric, some (call.2.map Halt.stop))

/-- A call is told by its numbers. -/
theorem inNumbers_injective :
    Function.Injective (inNumbers : Machine σ × Except RunError Halt → Numeric.Run σ) := by
  rintro ⟨m, r⟩ ⟨m', r'⟩ h
  obtain ⟨hm, hr⟩ := Prod.mk.inj h
  obtain rfl := numeric_injective hm
  have hr := Option.some.inj hr
  cases r with
  | error e =>
      cases r' with
      | error e' =>
          obtain rfl := Except.error.inj hr
          rfl
      | ok halt' => cases hr
  | ok halt =>
      cases r' with
      | error e' => cases hr
      | ok halt' =>
          obtain rfl := Halt.stop_injective (Except.ok.inj hr)
          rfl

variable [Sensors σ] {code : Array Word} {length : Nat}

/-! ## One slot -/

/-- A slot does what the reference says of it. -/
theorem step_numeric (code : Array Word) (m : Machine σ) :
    m.numeric.step code = ((step code m).1.numeric, (step code m).2.map Flow.course) := by
  have hcursor : m.numeric.cursor = m.cursor := rfl
  simp only [Numeric.step, step, hcursor]
  cases hop : Opcode.ofWord? (Slot.read code m.cursor).opcode with
  | none => rfl
  | some op =>
      have hcheck := Slot.map_decodeArgs m.cursor (Slot.read code m.cursor) op
      cases hargs : (Slot.read code m.cursor).decodeArgs m.cursor op with
      | error e =>
          rw [hargs] at hcheck
          simp only [hargs, ← hcheck, Except.map]
          rfl
      | ok i =>
          rw [hargs] at hcheck
          have hperform := Slot.perform_of_decodeArgs hargs (counted m)
          simp only [hargs, ← hcheck, Except.map]
          exact congrArg (fun done => (done.1, Except.ok done.2)) hperform.symm

theorem turn_of_advance {m t : Machine σ} (h : Advance code length m t) :
    Numeric.turn code length (m.numeric, none) = (t.numeric, none) := by
  have hstep := step_numeric code m
  cases h with
  | next below slot =>
      rw [slot] at hstep
      simp only [Numeric.turn, hstep]
      exact if_pos below
  | jump below slot =>
      rw [slot] at hstep
      simp only [Numeric.turn, hstep]
      exact if_pos below

theorem turn_of_ends {m m' : Machine σ} {r : Except RunError Halt} (h : Ends code length m m' r) :
    Numeric.turn code length (m.numeric, none) = inNumbers (m', r) := by
  have hstep := step_numeric code m
  cases h with
  | completed past =>
      simp only [Numeric.turn]
      exact if_neg (Nat.not_lt.mpr past)
  | fault below slot =>
      rw [slot] at hstep
      simp only [Numeric.turn, hstep]
      exact if_pos below
  | pause below slot =>
      rw [slot] at hstep
      simp only [Numeric.turn, hstep]
      exact if_pos below

/-! ## Runs -/

/-- **A run is an iteration of turns**, more of them than there are slots from the cursor on. -/
theorem iterate_turn_loop (hlength : length % slotWidth = 0) {m : Machine σ}
    (hm : m.cursor % slotWidth = 0) {k : Nat} (hk : (length - m.cursor) / slotWidth < k) :
    (Numeric.turn code length)^[k] (m.numeric, none) = inNumbers (loop code length m) := by
  refine loop_induct code length
    (P := fun m m' r => m.cursor % slotWidth = 0 → ∀ k, (length - m.cursor) / slotWidth < k →
      (Numeric.turn code length)^[k] (m.numeric, none) = inNumbers (m', r)) ?_ ?_ m hm k hk
  · intro m m' r hends hm k hk
    obtain ⟨k, rfl⟩ := Nat.exists_eq_add_one_of_ne_zero (Nat.ne_zero_of_lt hk)
    rw [Function.iterate_succ_apply, turn_of_ends hends]
    -- the turns that are left change nothing
    exact Numeric.iterate_turn_ended code length k _ _
  · intro m t m' r hadv _ ih hm k hk
    obtain ⟨k, rfl⟩ := Nat.exists_eq_add_one_of_ne_zero (Nat.ne_zero_of_lt hk)
    rw [Function.iterate_succ_apply, turn_of_advance hadv]
    refine ih (hadv.aligned hm) k ?_
    -- the cursor has moved on by a slot at least
    have below := hadv.below
    have hforward := hadv.cursor_lt
    have haligned := hadv.aligned hm
    simp only [slotWidth] at *
    omega

theorem iterate_turn_start (hlength : Code.IsLength length code.size) (cursor : Nat) (m : Machine σ)
    {k : Nat} (hk : length / slotWidth < k) :
    (Numeric.turn code length)^[k] (m.numeric.start cursor) =
      inNumbers (start code length cursor m) := by
  unfold Numeric.start
  by_cases hcursor : cursor % slotWidth = 0
  · rw [if_pos hcursor, start_eq_loop hlength hcursor]
    refine iterate_turn_loop hlength.1 (m := { m with cursor := cursor }) hcursor ?_
    exact Nat.lt_of_le_of_lt (Nat.div_le_div_right (Nat.sub_le _ _)) hk
  · rw [if_neg hcursor, Numeric.iterate_turn_ended, start,
      Code.checkLength_eq_ok_iff.mpr hlength]
    simp only [if_neg hcursor]
    rfl

theorem iterate_turn_run (hlength : Code.IsLength length code.size) (cursor : Nat) (m : Machine σ)
    {k : Nat} (hk : length / slotWidth < k) :
    (Numeric.turn code length)^[k] (m.numeric.run cursor) = inNumbers (run code length cursor m) := by
  have hwaits : m.numeric.pending.isSome = m.pending.isSome := Option.isSome_map
  unfold Numeric.run
  rw [hwaits]
  cases hm : m.pending with
  | none =>
      rw [run_of_rest hm]
      exact iterate_turn_start hlength cursor m hk
  | some dst =>
      rw [run_of_pending hm]
      exact Numeric.iterate_turn_ended code length k _ _

theorem iterate_turn_resume (hlength : Code.IsLength length code.size) (answer : Word)
    (m : Machine σ) {k : Nat} (hk : length / slotWidth < k) :
    (Numeric.turn code length)^[k] (m.numeric.resume answer.toNat) =
      inNumbers (resume code length answer m) := by
  have hpending : m.numeric.pending = m.pending.map Fin.val := rfl
  unfold Numeric.resume
  rw [hpending]
  cases hm : m.pending with
  | none =>
      rw [resume_of_rest hm]
      exact Numeric.iterate_turn_ended code length k _ _
  | some dst =>
      rw [resume_of_pending hm, ← iterate_turn_start hlength m.cursor (m.take dst answer) hk, take,
        numeric_put]
      rfl

/-! ## What a slot leaves alone -/

/-- What a slot may change of a machine, from `m` to `t`. -/
structure SlotFrame (slot : Slot) (m t : Machine σ) : Prop where
  /-- The memory keeps its size. -/
  size : t.memory.size = m.memory.size
  /-- A register that changes is the one of the last operand, and then the memory is the same. -/
  register : ∀ r : Reg, t.get r ≠ m.get r → t.memory = m.memory ∧
    ∃ op, Opcode.ofWord? slot.opcode = some op ∧
      r.val = Numeric.lastOperand op slot.arg1.toNat slot.arg2.toNat slot.arg3.toNat
  /-- A memory word that changes is the one at the address in the first register of a write, and then
  the registers are the same. -/
  word : ∀ i, t.memory.words.getD i 0 ≠ m.memory.words.getD i 0 → t.registers = m.registers ∧
    slot.opcode = Opcode.write.word ∧ i = m.numeric.get slot.arg1.toNat % m.memory.size

omit [Sensors σ] in
theorem SlotFrame.of_same (slot : Slot) {m t : Machine σ} (hregisters : t.registers = m.registers)
    (hmemory : t.memory = m.memory) : SlotFrame slot m t where
  size := by rw [hmemory]
  register := fun r hr => absurd (congrArg (·[r]) hregisters) hr
  word := fun i hi => absurd (by rw [hmemory]) hi

theorem slotFrame_perform {slot : Slot} {op : Opcode} (hop : Opcode.ofWord? slot.opcode = some op)
    {m t : Machine σ}
    (h : t.numeric =
      ((counted m).numeric.perform op slot.arg1.toNat slot.arg2.toNat slot.arg3.toNat).1) :
    SlotFrame slot m t := by
  rcases (counted m).numeric.perform_frame op slot.arg1.toNat slot.arg2.toNat slot.arg3.toNat with
    ⟨hmemory, hget⟩ | ⟨rfl, hstore⟩
  · rw [← h] at hmemory hget
    have hsame : t.memory = m.memory := memory_eq_of_numeric (m := counted m) hmemory
    refine ⟨by rw [hsame], fun r hr => ⟨hsame, op, hop, ?_⟩, fun i hi => absurd (by rw [hsame]) hi⟩
    -- if another register had changed, it would have in numbers
    by_contra hne
    have hr' := hget r.val hne
    rw [get_numeric, get_numeric] at hr'
    exact hr (UInt16.toNat_inj.mp hr')
  · rw [hstore] at h
    have hregisters : t.registers = m.registers := by
      refine registers_eq_of_numeric ?_
      rw [h, Numeric.store]
      split <;> rfl
    refine ⟨?_, fun r hr => absurd (congrArg (·[r]) hregisters) hr, fun i hi => ?_⟩
    · rw [← length_numeric_memory, h, Numeric.length_store, length_numeric_memory]
      rfl
    · refine ⟨hregisters, Opcode.ofWord?_eq_some_iff.mp hop, ?_⟩
      by_contra hne
      rw [← length_numeric_memory] at hne
      have hi' := (counted m).numeric.getD_store_ne ((counted m).numeric.get slot.arg2.toNat) hne
      have hkept : t.numeric.memory.getD i 0 = m.numeric.memory.getD i 0 := by
        rw [h]
        exact hi'
      rw [getD_numeric_memory, getD_numeric_memory] at hkept
      exact hi (UInt16.toNat_inj.mp hkept)

/-- **A slot changes one thing at most**: a register, or a word of memory. -/
theorem slotFrame_step (code : Array Word) (m : Machine σ) :
    SlotFrame (Slot.read code m.cursor) m (step code m).1 := by
  cases hop : Opcode.ofWord? (Slot.read code m.cursor).opcode with
  | none =>
      simp only [step, hop]
      exact .of_same _ rfl rfl
  | some op =>
      cases hargs : (Slot.read code m.cursor).decodeArgs m.cursor op with
      | error e =>
          simp only [step, hop, hargs]
          exact .of_same _ rfl rfl
      | ok i =>
          simp only [step, hop, hargs]
          exact slotFrame_perform hop
            (congrArg Prod.fst (Slot.perform_of_decodeArgs hargs (counted m)))

/-! ## The machine and the reference -/

/-- **The machine does what the tables say.** On any code of a valid length and from any machine, with
any host, a run and an answer come to what the iteration of turns on numbers comes to, after as many
turns as the program has slots and one more; and a call is told by its numbers, so this determines its
result and the machine it leaves. No slot changes the size of the memory, nor more than the register of
its last operand or one word of memory. -/
theorem reference_semantics (hlength : Code.IsLength length code.size) :
    (∀ (m : Machine σ) cursor k, length / slotWidth < k →
        (Numeric.turn code length)^[k] (m.numeric.run cursor) =
          inNumbers (run code length cursor m)) ∧
      (∀ (m : Machine σ) answer k, length / slotWidth < k →
        (Numeric.turn code length)^[k] (m.numeric.resume answer.toNat) =
          inNumbers (resume code length answer m)) ∧
      Function.Injective (inNumbers : Machine σ × Except RunError Halt → Numeric.Run σ) ∧
      ∀ m : Machine σ, SlotFrame (Slot.read code m.cursor) m (step code m).1 :=
  ⟨fun m cursor _ hk => iterate_turn_run hlength cursor m hk,
    fun m answer _ hk => iterate_turn_resume hlength answer m hk, inNumbers_injective,
    slotFrame_step code⟩

/-- Counts a register down from zero, doubles it in place and puts it out. -/
def countDown : Array Word := #[3, 0, 0, 0, 4, 0, 0, 0, 14, 0, 0, 0]

theorem reference_countDown : Code.IsLength 12 countDown.size ∧
    (Numeric.turn countDown 12)^[4] ((fresh 0 NoHost.mk).numeric.run 0) =
      inNumbers (run countDown 12 0 (fresh 0 NoHost.mk)) ∧
    (run countDown 12 0 (fresh 0 NoHost.mk)).1.output = #[65534] := by
  have hlength : Code.IsLength 12 countDown.size := by decide
  exact ⟨hlength, (reference_semantics hlength).1 _ 0 4 (by decide), by cbv⟩

end Machine

end BytecodeSearch
