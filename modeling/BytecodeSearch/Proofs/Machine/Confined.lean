import BytecodeSearch.Proofs.Machine.Protocol

/-!
# Registers that code leaves alone

Code whose operands name the first `count` registers only (`Code.UsesBelow`) can do nothing with the
others: not read them, not write them, not wait for one of them. All of this is one fact. Putting other
values into the high registers (`withHigh`) commutes with everything that such code does, slot by slot
(`step_withHigh`), along a run (`loop_withHigh`) and along a chain of calls (`chain_withHigh`). With the
values a machine has itself it says that the high registers stay (`get_chain`), with the values of
another machine that they do not matter (`AgreesBelow.chain`).
-/

set_option autoImplicit false

namespace BytecodeSearch

/-- The registers an instruction names. -/
def Instr.registers {pos : Nat} : Instr pos → List Reg
  | .jump _ => []
  | .set _ r | .inc r | .dec r | .jumpTest _ r _ | .echo r => [r]
  | .move a b | .binary _ a b | .read a b | .write a b | .jumpIf _ a b _ | .ask a b => [a, b]
  | .sense _ a b c => [a, b, c]

/-- They are those of its register operands. -/
theorem Slot.register_of_decodeArgs {pos : Nat} {s : Slot} {op : Opcode} {i : Instr pos}
    (h : s.decodeArgs pos op = .ok i) {r : Reg} (hr : r ∈ i.registers) :
    ∃ w, (OperandKind.register, w) ∈ op.layout.zip s.args ∧ w.toNat = r.val := by
  cases op with
  | set =>
      obtain ⟨a, ha, rfl⟩ := decode1_eq_ok h
      obtain rfl := List.mem_singleton.mp hr
      exact ⟨s.arg2, by simp [Opcode.layout, args], ha.symm⟩
  | inc | dec | echo =>
      obtain ⟨a, ha, rfl⟩ := decode1_eq_ok h
      obtain rfl := List.mem_singleton.mp hr
      exact ⟨s.arg1, by simp [Opcode.layout, args], ha.symm⟩
  | jump =>
      obtain ⟨t, -, rfl⟩ := decodeArgs_jump_eq_ok h
      cases hr
  | jumpZero | jumpNonzero =>
      obtain ⟨a, t, ha, -, rfl⟩ := decodeTest_eq_ok h
      obtain rfl := List.mem_singleton.mp hr
      exact ⟨s.arg1, by simp [Opcode.layout, args], ha.symm⟩
  | jumpGreater | jumpLess | jumpEqual =>
      obtain ⟨a, b, t, ha, hb, -, rfl⟩ := decodeCompare_eq_ok h
      rcases List.mem_pair.mp hr with rfl | rfl
      · exact ⟨s.arg1, by simp [Opcode.layout, args], ha.symm⟩
      · exact ⟨s.arg2, by simp [Opcode.layout, args], hb.symm⟩
  | out | step | eat | clone =>
      obtain ⟨a, b, c, ha, hb, hc, rfl⟩ := decode3_eq_ok h
      rcases List.mem_cons.mp hr with rfl | hr
      · exact ⟨s.arg1, by simp [Opcode.layout, args], ha.symm⟩
      · rcases List.mem_pair.mp hr with rfl | rfl
        · exact ⟨s.arg2, by simp [Opcode.layout, args], hb.symm⟩
        · exact ⟨s.arg3, by simp [Opcode.layout, args], hc.symm⟩
  | move | add | sub | read | write | or | and | xor | not | mul | div | rem | shl | shr | ask =>
      obtain ⟨a, b, ha, hb, rfl⟩ := decode2_eq_ok h
      rcases List.mem_pair.mp hr with rfl | rfl
      · exact ⟨s.arg1, by simp [Opcode.layout, args], ha.symm⟩
      · exact ⟨s.arg2, by simp [Opcode.layout, args], hb.symm⟩

/-- The instructions in the first `length` words of the code name registers below `count` only. -/
def Code.UsesBelow (count : Nat) (code : Array Word) (length : Nat) : Prop :=
  ∀ pos < length, pos % slotWidth = 0 → ∀ op i,
    Opcode.ofWord? (Slot.read code pos).opcode = some op →
      (Slot.read code pos).decodeArgs pos op = .ok i → ∀ r ∈ i.registers, r.val < count

namespace Machine

variable {σ : Type} {count : Nat} {high : Registers}

/-! ## Other values in high registers -/

/-- The machine with other values in the registers from `count` on. -/
def withHigh (count : Nat) (high : Registers) (m : Machine σ) : Machine σ :=
  { m with registers := Vector.ofFn fun r => if r.val < count then m.registers[r] else high[r] }

theorem get_withHigh (m : Machine σ) (r : Reg) :
    (m.withHigh count high).get r = if r.val < count then m.get r else high.get r :=
  Vector.getElem_ofFn r.isLt

theorem get_withHigh_of_lt (m : Machine σ) {r : Reg} (hr : r.val < count) :
    (m.withHigh count high).get r = m.get r := by
  rw [get_withHigh, if_pos hr]

theorem registers_ext {a b : Registers} (h : ∀ r : Reg, a.get r = b.get r) : a = b :=
  Vector.ext fun i hi => h ⟨i, hi⟩

theorem get_put (m : Machine σ) (r q : Reg) (w : Word) :
    (m.put r w).get q = if r = q then w else m.get q := by
  show (m.registers.set r w)[q.val] = _
  rw [Vector.getElem_set]
  simp only [Fin.ext_iff]
  rfl

theorem put_withHigh (m : Machine σ) {r : Reg} (hr : r.val < count) (w : Word) :
    (m.put r w).withHigh count high = (m.withHigh count high).put r w := by
  have hregisters : ((m.put r w).withHigh count high).registers =
      ((m.withHigh count high).put r w).registers := by
    refine registers_ext fun q => ?_
    show ((m.put r w).withHigh count high).get q = ((m.withHigh count high).put r w).get q
    rw [get_withHigh, get_put, get_put, get_withHigh]
    by_cases hq : r = q
    · subst hq
      rw [if_pos rfl, if_pos rfl, if_pos hr]
    · rw [if_neg hq, if_neg hq]
  exact congrArg (fun registers => { m with registers := registers }) hregisters

/-- With its own values in the high registers a machine is as it was. -/
theorem withHigh_self (count : Nat) (m : Machine σ) : m.withHigh count m.registers = m := by
  have hregisters : (m.withHigh count m.registers).registers = m.registers := by
    refine registers_ext fun r => ?_
    show (m.withHigh count m.registers).get r = m.get r
    rw [get_withHigh]
    split <;> rfl
  exact congrArg (fun registers => { m with registers := registers }) hregisters

/-- Machines that are the same but for the registers from `count` on. -/
structure AgreesBelow (count : Nat) (m t : Machine σ) : Prop where
  registers : ∀ r : Reg, r.val < count → t.get r = m.get r
  memory : t.memory = m.memory
  output : t.output = m.output
  host : t.host = m.host
  cursor : t.cursor = m.cursor
  pending : t.pending = m.pending
  steps : t.steps = m.steps

theorem agreesBelow_withHigh (count : Nat) (high : Registers) (m : Machine σ) :
    AgreesBelow count m (m.withHigh count high) :=
  ⟨fun _ hr => get_withHigh_of_lt m hr, rfl, rfl, rfl, rfl, rfl, rfl⟩

theorem AgreesBelow.eq_withHigh {m t : Machine σ} (h : AgreesBelow count m t) :
    t = m.withHigh count t.registers := by
  have hregisters : t.registers = (m.withHigh count t.registers).registers := by
    refine registers_ext fun r => ?_
    show t.get r = (m.withHigh count t.registers).get r
    rw [get_withHigh]
    split
    · rename_i hr
      exact h.registers r hr
    · rfl
  obtain ⟨-, hmemory, houtput, hhost, hcursor, hpending, hsteps⟩ := h
  cases t
  simp only at hregisters hmemory houtput hhost hcursor hpending hsteps
  subst hmemory houtput hhost hcursor hpending hsteps
  exact congrArg (fun registers => { m with registers := registers }) hregisters

variable [Sensors σ] {code : Array Word} {length : Nat}

/-! ## One slot -/

/-- An instruction that names low registers only does the same whatever the high ones hold. -/
theorem exec_withHigh {pos : Nat} {i : Instr pos} (h : ∀ r ∈ i.registers, r.val < count)
    (high : Registers) (m : Machine σ) :
    i.exec (m.withHigh count high) = ((i.exec m).1.withHigh count high, (i.exec m).2) := by
  cases i with
  | jump target => rfl
  | set value dst =>
      have hdst := h dst (by simp [Instr.registers])
      simp only [Instr.exec, put_withHigh m hdst]
  | inc dst | dec dst =>
      have hdst := h dst (by simp [Instr.registers])
      simp only [Instr.exec, put_withHigh m hdst, get_withHigh_of_lt m hdst]
  | move src dst | binary op src dst =>
      have hsrc := h src (by simp [Instr.registers])
      have hdst := h dst (by simp [Instr.registers])
      simp only [Instr.exec, put_withHigh m hdst, get_withHigh_of_lt m hsrc,
        get_withHigh_of_lt m hdst]
  | read addr dst =>
      have haddr := h addr (by simp [Instr.registers])
      have hdst := h dst (by simp [Instr.registers])
      simp only [Instr.exec, put_withHigh m hdst, get_withHigh_of_lt m haddr]
      rfl
  | write addr src =>
      have haddr := h addr (by simp [Instr.registers])
      have hsrc := h src (by simp [Instr.registers])
      simp only [Instr.exec, get_withHigh_of_lt m haddr, get_withHigh_of_lt m hsrc]
      rfl
  | jumpIf rel a b target | ask a b =>
      have ha := h a (by simp [Instr.registers])
      have hb := h b (by simp [Instr.registers])
      simp only [Instr.exec, get_withHigh_of_lt m ha, get_withHigh_of_lt m hb]
  | jumpTest zero r target =>
      have hr := h r (by simp [Instr.registers])
      simp only [Instr.exec, get_withHigh_of_lt m hr]
  | echo src =>
      have hsrc := h src (by simp [Instr.registers])
      simp only [Instr.exec, get_withHigh_of_lt m hsrc]
      rfl
  | sense hook a b dst =>
      have ha := h a (by simp [Instr.registers])
      have hb := h b (by simp [Instr.registers])
      have hdst := h dst (by simp [Instr.registers])
      have hhost : (m.withHigh count high).host = m.host := rfl
      simp only [Instr.exec, get_withHigh_of_lt m ha, get_withHigh_of_lt m hb, hhost]
      cases Sensors.sense hook (m.get a) (m.get b) m.host with
      | mk reply host =>
          cases reply with
          | none => rfl
          | some w =>
              exact congrArg (·, Flow.next) (put_withHigh { m with host := host } hdst w).symm

theorem step_withHigh (h : Code.UsesBelow count code length) (high : Registers) {m : Machine σ}
    (below : m.cursor < length) (hm : m.cursor % slotWidth = 0) :
    step code (m.withHigh count high) =
      ((step code m).1.withHigh count high, (step code m).2) := by
  cases hcheck : (Slot.read code m.cursor).check m.cursor with
  | error e =>
      have hslot := step_eq_error_iff.mpr ⟨hcheck, rfl⟩
      have hslot' : step code (m.withHigh count high) = _ := step_eq_error_iff.mpr ⟨hcheck, rfl⟩
      rw [hslot, hslot']
      rfl
  | ok op =>
      obtain ⟨hop, i, hi⟩ := Slot.exists_decodeArgs_of_check hcheck
      -- both machines are at the same slot, so they run the same instruction
      have hexec := exec_withHigh (h m.cursor below hm op i hop hi) high (counted m)
      have hslot : step code m = ((i.exec (counted m)).1, .ok (i.exec (counted m)).2) :=
        step_eq_ok_iff.mpr ⟨op, i, hop, hi, rfl⟩
      have hslot' : step code (m.withHigh count high) = _ :=
        step_eq_ok_iff.mpr ⟨op, i, hop, hi, hexec⟩
      rw [hslot]
      exact hslot'

/-! ## Runs -/

theorem Advance.withHigh (h : Code.UsesBelow count code length) (high : Registers)
    {m t : Machine σ} (hm : m.cursor % slotWidth = 0) (hadv : Advance code length m t) :
    Advance code length (m.withHigh count high) (t.withHigh count high) := by
  have hstep := step_withHigh h high hadv.below hm
  cases hadv with
  | next below slot =>
      rw [slot] at hstep
      exact .next (m := m.withHigh count high) below hstep
  | jump below slot =>
      rw [slot] at hstep
      exact .jump (m := m.withHigh count high) below hstep

theorem Ends.withHigh (h : Code.UsesBelow count code length) (high : Registers)
    {m m' : Machine σ} {r : Except RunError Halt} (hm : m.cursor % slotWidth = 0)
    (hends : Ends code length m m' r) :
    Ends code length (m.withHigh count high) (m'.withHigh count high) r := by
  cases hends with
  | completed past => exact .completed past
  | fault below slot =>
      have hstep := step_withHigh h high below hm
      rw [slot] at hstep
      exact .fault (m := m.withHigh count high) below hstep
  | pause below slot =>
      have hstep := step_withHigh h high below hm
      rw [slot] at hstep
      exact .pause (m := m.withHigh count high) below hstep

theorem loop_withHigh (h : Code.UsesBelow count code length) (high : Registers) {m : Machine σ}
    (hm : m.cursor % slotWidth = 0) :
    loop code length (m.withHigh count high) =
      ((loop code length m).1.withHigh count high, (loop code length m).2) := by
  -- the cursor stays at slot boundaries, where `h` says what the instructions name
  refine loop_induct code length
    (P := fun m m' r => m.cursor % slotWidth = 0 →
      loop code length (m.withHigh count high) = (m'.withHigh count high, r)) ?_ ?_ m hm
  · intro m m' r hends hm
    exact (hends.withHigh h high hm).loop_eq
  · intro m t m' r hadv _ ih hm
    rw [(hadv.withHigh h high hm).loop_eq]
    exact ih (hadv.aligned hm)

/-- If a machine waits, it does so for one of the low registers. -/
def PendingBelow (count : Nat) (m : Machine σ) : Prop :=
  ∀ dst, m.pending = some dst → dst.val < count

theorem pendingBelow_loop (h : Code.UsesBelow count code length) {m : Machine σ}
    (hm : m.cursor % slotWidth = 0) (hpending : PendingBelow count m) :
    PendingBelow count (loop code length m).1 := by
  refine loop_induct code length
    (P := fun m m' _ => m.cursor % slotWidth = 0 → PendingBelow count m → PendingBelow count m')
    ?_ ?_ m hm hpending
  · intro m m' r hends hm hpending
    cases hends with
    | completed _ => exact hpending
    | fault _ slot =>
        have hframe := (step_frame code m).2.1
        rw [slot] at hframe
        intro dst hdst
        exact hpending dst (hframe ▸ hdst)
    | pause below slot =>
        -- the register is one that the `in` slot names
        obtain ⟨op, i, hop, hi, hexec⟩ := step_eq_ok_iff.mp slot
        obtain ⟨query, rfl, -, -⟩ := eq_ask_of_exec_pause hexec
        rintro _ ⟨⟩
        exact h m.cursor below hm op _ hop hi _ (by simp [Instr.registers])
  · intro m t m' r hadv _ ih hm hpending
    refine ih (hadv.aligned hm) fun dst hdst => hpending dst ?_
    rw [← hadv.pending, hdst]

/-! ## Calls -/

theorem start_withHigh (h : Code.UsesBelow count code length) (high : Registers) (cursor : Nat)
    (m : Machine σ) : start code length cursor (m.withHigh count high) =
      ((start code length cursor m).1.withHigh count high, (start code length cursor m).2) := by
  by_cases hstart : Code.IsLength length code.size ∧ cursor % slotWidth = 0
  · rw [start_eq_loop hstart.1 hstart.2, start_eq_loop hstart.1 hstart.2]
    exact loop_withHigh h high (m := { m with cursor := cursor }) hstart.2
  · rw [start_eq_of_refused hstart, start_eq_of_refused hstart]

theorem pendingBelow_start (h : Code.UsesBelow count code length) {cursor : Nat} {m : Machine σ}
    (hpending : PendingBelow count m) : PendingBelow count (start code length cursor m).1 := by
  by_cases hstart : Code.IsLength length code.size ∧ cursor % slotWidth = 0
  · rw [start_eq_loop hstart.1 hstart.2]
    exact pendingBelow_loop h (m := { m with cursor := cursor }) hstart.2 hpending
  · rw [start_eq_of_refused hstart]
    exact hpending

theorem run_withHigh (h : Code.UsesBelow count code length) (high : Registers) (cursor : Nat)
    (m : Machine σ) : run code length cursor (m.withHigh count high) =
      ((run code length cursor m).1.withHigh count high, (run code length cursor m).2) := by
  cases hm : m.pending with
  | none =>
      have hm' : (m.withHigh count high).pending = none := hm
      rw [run_of_rest hm, run_of_rest hm', start_withHigh h]
  | some dst =>
      have hm' : (m.withHigh count high).pending = some dst := hm
      rw [run_of_pending hm, run_of_pending hm']
      rfl

theorem resume_withHigh (h : Code.UsesBelow count code length) (high : Registers) (answer : Word)
    {m : Machine σ} (hpending : PendingBelow count m) :
    resume code length answer (m.withHigh count high) =
      ((resume code length answer m).1.withHigh count high, (resume code length answer m).2) := by
  cases hm : m.pending with
  | none =>
      have hm' : (m.withHigh count high).pending = none := hm
      rw [resume_of_rest hm, resume_of_rest hm']
  | some dst =>
      have hm' : (m.withHigh count high).pending = some dst := hm
      have htake : (m.withHigh count high).take dst answer =
          (m.take dst answer).withHigh count high :=
        (put_withHigh { m with pending := none } (hpending dst hm) answer).symm
      rw [resume_of_pending hm, resume_of_pending hm', htake, start_withHigh h]
      rfl

theorem pendingBelow_run (h : Code.UsesBelow count code length) {cursor : Nat} {m : Machine σ}
    (hpending : PendingBelow count m) : PendingBelow count (run code length cursor m).1 := by
  cases hm : m.pending with
  | none =>
      rw [run_of_rest hm]
      exact pendingBelow_start h hpending
  | some dst =>
      rw [run_of_pending hm]
      exact hpending

theorem pendingBelow_resume (h : Code.UsesBelow count code length) {answer : Word} {m : Machine σ}
    (hpending : PendingBelow count m) : PendingBelow count (resume code length answer m).1 := by
  cases hm : m.pending with
  | none =>
      rw [resume_of_rest hm]
      exact hpending
  | some dst =>
      rw [resume_of_pending hm]
      refine pendingBelow_start h fun d hd => ?_
      -- a machine that has taken the answer does not wait
      cases hd

/-! ## Chains of calls -/

theorem pendingBelow_chain (h : Code.UsesBelow count code length) (cursor : Nat)
    (answers : Nat → Word) {m : Machine σ} (hpending : PendingBelow count m) (n : Nat) :
    PendingBelow count (chain code length cursor answers m n).1 := by
  induction n with
  | zero => exact pendingBelow_run h hpending
  | succ n ih => exact pendingBelow_resume h ih

/-- **Chains of calls and high registers**: what such a chain comes to with other values in the high
registers is what it comes to without, with these values in the high registers. -/
theorem chain_withHigh (h : Code.UsesBelow count code length) (high : Registers) (cursor : Nat)
    (answers : Nat → Word) {m : Machine σ} (hpending : PendingBelow count m) (n : Nat) :
    chain code length cursor answers (m.withHigh count high) n =
      ((chain code length cursor answers m n).1.withHigh count high,
        (chain code length cursor answers m n).2) := by
  induction n with
  | zero => exact run_withHigh h high cursor m
  | succ n ih =>
      rw [chain, chain, ih]
      exact resume_withHigh h high (answers n) (pendingBelow_chain h cursor answers hpending n)

/-- High registers stay as they are. -/
theorem get_chain (h : Code.UsesBelow count code length) (cursor : Nat) (answers : Nat → Word)
    {m : Machine σ} (hpending : PendingBelow count m) (n : Nat) {r : Reg} (hr : count ≤ r.val) :
    (chain code length cursor answers m n).1.get r = m.get r := by
  -- with its own high registers the machine is the same, so the chain must end with them
  have hchain := chain_withHigh h m.registers cursor answers hpending n
  rw [withHigh_self] at hchain
  rw [hchain, get_withHigh, if_neg (Nat.not_lt.mpr hr)]
  rfl

/-- High registers do not matter. -/
theorem AgreesBelow.chain (h : Code.UsesBelow count code length) (cursor : Nat)
    (answers : Nat → Word) {m t : Machine σ} (hpending : PendingBelow count m)
    (hagrees : AgreesBelow count m t) (n : Nat) :
    (Machine.chain code length cursor answers t n).2 =
        (Machine.chain code length cursor answers m n).2 ∧
      AgreesBelow count (Machine.chain code length cursor answers m n).1
        (Machine.chain code length cursor answers t n).1 := by
  rw [hagrees.eq_withHigh, chain_withHigh h t.registers cursor answers hpending n]
  exact ⟨rfl, agreesBelow_withHigh count t.registers _⟩

/-- A machine that has paused waits. -/
theorem isSuspended_chain {cursor : Nat} {answers : Nat → Word} {m : Machine σ} {n : Nat}
    (h : isPause (chain code length cursor answers m n).2 = true) :
    (chain code length cursor answers m n).1.isSuspended = true := by
  have hpending : ∀ dst query c, (chain code length cursor answers m n).2 =
      .ok (.suspended dst query c) → (chain code length cursor answers m n).1.pending = some dst := by
    intro dst query c hresult
    cases n with
    | zero => exact (paused_of_run hresult).pending
    | succ n => exact (paused_of_resume hresult).pending
  match hresult : (chain code length cursor answers m n).2, h with
  | .ok (.suspended dst query c), _ => simp [isSuspended, hpending dst query c hresult]

/-- **Valid code comes to its end.** A host that answers every pause of it completes the run. -/
theorem exists_chain_completed (hcode : Code.IsValid code length) {cursor : Nat}
    (hcursor : cursor % slotWidth = 0) (answers : Nat → Word) {m : Machine σ}
    (hm : m.pending = none) :
    ∃ n, (∀ j < n, isPause (chain code length cursor answers m j).2 = true) ∧
      (chain code length cursor answers m n).2 = .ok .completed := by
  obtain ⟨n, -, hpauses, hend⟩ := exists_isPause_eq_false code length cursor answers m
  have hok : ∃ m' halt, chain code length cursor answers m n = (m', .ok halt) := by
    cases n with
    | zero =>
        rw [chain, run_eq_loop hcode.isLength hcursor hm]
        exact exists_loop_eq_ok hcode { m with cursor := cursor } hcursor
    | succ n =>
        exact exists_resume_eq_ok hcode (isSuspended_chain (hpauses n n.lt_succ_self))
          (restsAligned_chain code length cursor answers hm n) (answers n)
  obtain ⟨m', halt, hok⟩ := hok
  refine ⟨n, hpauses, ?_⟩
  rw [hok] at hend ⊢
  cases halt with
  | completed => rfl
  | suspended dst query cursor => cases hend

end Machine

end BytecodeSearch
