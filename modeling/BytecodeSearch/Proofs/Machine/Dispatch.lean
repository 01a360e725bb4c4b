import BytecodeSearch.Machine.Run
import BytecodeSearch.Proofs.Isa.Decode
import BytecodeSearch.Proofs.Program.Validity

/-!
# One slot after the other

A run is a sequence of slots. `Advance` relates a machine to the one behind the slot at its cursor
if the run goes on from there, and `Ends` relates it to what the run comes to if it does not.
Every machine does one or the other, so a property of runs follows from its endings and from one
advance (`loop_induct`).

From this come the facts that other theories use: code whose slots do the same runs the same
(`loop_eq_of_step_eq`), a run keeps the size of the memory (`size_memory_loop`), and valid code has
no fault (`exists_loop_eq_ok`).
-/

set_option autoImplicit false

namespace BytecodeSearch.Machine

variable {σ : Type} [Sensors σ] {code : Array Word} {length : Nat}

/-! ## One instruction -/

/-- No instruction moves the cursor, answers a query or changes the size of the memory. -/
theorem exec_frame {pos : Nat} (i : Instr pos) (m : Machine σ) :
    (i.exec m).1.cursor = m.cursor ∧ (i.exec m).1.pending = m.pending ∧
      (i.exec m).1.memory.size = m.memory.size := by
  cases i with
  | sense hook a b dst =>
      simp only [Instr.exec]
      split <;> exact ⟨rfl, rfl, rfl⟩
  | write addr src => exact ⟨rfl, rfl, Memory.size_write _ _ _⟩
  | set | move | inc | dec | binary | read | jump | jumpIf | jumpTest | echo | ask =>
      exact ⟨rfl, rfl, rfl⟩

theorem jumpIf_ne_pause {pos : Nat} (c : Bool) (target : Target pos) (query : Word) (dst : Reg) :
    Flow.jumpIf c target ≠ .pause query dst := by
  cases c <;> simp [Flow.jumpIf]

/-- Only an `in` instruction pauses, and it does nothing else. -/
theorem eq_ask_of_exec_pause {pos : Nat} {i : Instr pos} {m done : Machine σ} {query : Word}
    {dst : Reg} (h : i.exec m = (done, .pause query dst)) :
    ∃ r, i = .ask r dst ∧ query = m.get r ∧ done = m := by
  cases i with
  | ask r d =>
      simp only [Instr.exec, Prod.mk.injEq, Flow.pause.injEq] at h
      obtain ⟨rfl, rfl, rfl⟩ := h
      exact ⟨r, rfl, rfl, rfl⟩
  | sense hook a b d =>
      simp only [Instr.exec] at h
      split at h <;> simp at h
  | jumpIf rel a b target => exact absurd (congrArg Prod.snd h) (jumpIf_ne_pause _ _ _ _)
  | jumpTest zero a target => exact absurd (congrArg Prod.snd h) (jumpIf_ne_pause _ _ _ _)
  | set | move | inc | dec | binary | read | write | jump | echo => simp [Instr.exec] at h

/-! ## One slot -/

/-- The machine with one more instruction counted. -/
def counted (m : Machine σ) : Machine σ := { m with steps := m.steps + 1 }

/-- A slot is run as the instruction it decodes to. -/
theorem step_eq_ok_iff {m done : Machine σ} {flow : Flow m.cursor} :
    step code m = (done, .ok flow) ↔
      ∃ op i, Opcode.ofWord? (Slot.read code m.cursor).opcode = some op ∧
        (Slot.read code m.cursor).decodeArgs m.cursor op = .ok i ∧
        i.exec (counted m) = (done, flow) := by
  constructor
  · intro h
    simp only [step] at h
    split at h
    · simp at h
    · rename_i op hop
      split at h
      · simp at h
      · rename_i i hi
        simp only [Prod.mk.injEq, Except.ok.injEq] at h
        exact ⟨op, i, hop, hi, Prod.ext h.1 h.2⟩
  · rintro ⟨op, i, hop, hi, hexec⟩
    simp only [step, hop, hi]
    show ((i.exec (counted m)).1, Except.ok (i.exec (counted m)).2) = (done, .ok flow)
    rw [hexec]

/-- A slot is all a step looks at. -/
theorem step_congr {code' : Array Word} {m : Machine σ}
    (h : Slot.read code m.cursor = Slot.read code' m.cursor) : step code m = step code' m := by
  simp only [step, h]

/-- No slot moves the cursor itself, answers a query or changes the size of the memory. -/
theorem step_frame (code : Array Word) (m : Machine σ) :
    (step code m).1.cursor = m.cursor ∧ (step code m).1.pending = m.pending ∧
      (step code m).1.memory.size = m.memory.size := by
  simp only [step]
  split
  · exact ⟨rfl, rfl, rfl⟩
  · split
    · exact ⟨rfl, rfl, rfl⟩
    · exact exec_frame _ _

/-- A slot that passes the check is run without a fault. -/
theorem exists_step_eq_ok {m : Machine σ}
    (h : ∃ op, (Slot.read code m.cursor).check m.cursor = .ok op) :
    ∃ done flow, step code m = (done, .ok flow) := by
  obtain ⟨op, hop⟩ := h
  obtain ⟨hword, i, hi⟩ := Slot.exists_decodeArgs_of_check hop
  exact ⟨_, _, step_eq_ok_iff.mpr ⟨op, i, hword, hi, rfl⟩⟩

/-! ## Runs -/

/-- `t` is `m` behind the slot at its cursor, from where the run goes on. -/
inductive Advance (code : Array Word) (length : Nat) : Machine σ → Machine σ → Prop where
  /-- To the next slot. -/
  | next {m done : Machine σ} (below : m.cursor < length) (slot : step code m = (done, .ok .next)) :
      Advance code length m { done with cursor := m.cursor + slotWidth }
  /-- To the target of a jump. -/
  | jump {m done : Machine σ} {target : Target m.cursor} (below : m.cursor < length)
      (slot : step code m = (done, .ok (.jump target))) :
      Advance code length m { done with cursor := target.word.toNat }

/-- The run from `m` does not go on: it leaves the machine `m'` and the result `r`. -/
inductive Ends (code : Array Word) (length : Nat) :
    Machine σ → Machine σ → Except RunError Halt → Prop where
  /-- There are no slots left. -/
  | completed {m : Machine σ} (past : length ≤ m.cursor) : Ends code length m m (.ok .completed)
  /-- The slot is at fault. -/
  | fault {m done : Machine σ} {e : CodeError} (below : m.cursor < length)
      (slot : step code m = (done, .error e)) : Ends code length m done (.error (.code e))
  /-- The slot asks the host. -/
  | pause {m done : Machine σ} {query : Word} {dst : Reg} (below : m.cursor < length)
      (slot : step code m = (done, .ok (.pause query dst))) :
      Ends code length m { done with cursor := m.cursor + slotWidth, pending := some dst }
        (.ok (.suspended dst query (m.cursor + slotWidth)))

theorem Advance.below {m t : Machine σ} (h : Advance code length m t) : m.cursor < length := by
  cases h with
  | next below _ => exact below
  | jump below _ => exact below

/-- Every advance moves the cursor on. -/
theorem Advance.cursor_lt {m t : Machine σ} (h : Advance code length m t) :
    m.cursor < t.cursor := by
  cases h with
  | next _ _ => exact Nat.lt_add_of_pos_right (by decide)
  | @jump _ target _ _ => exact target.forward

/-- From one slot boundary to another. -/
theorem Advance.aligned {m t : Machine σ} (h : Advance code length m t)
    (hm : m.cursor % slotWidth = 0) : t.cursor % slotWidth = 0 := by
  cases h with
  | next _ _ => rw [Nat.add_mod_right, hm]
  | @jump _ target _ _ => exact target.aligned

theorem Advance.pending {m t : Machine σ} (h : Advance code length m t) :
    t.pending = m.pending := by
  have hframe := (step_frame code m).2.1
  cases h with
  | next _ slot => rw [← hframe, slot]
  | jump _ slot => rw [← hframe, slot]

theorem Advance.size_memory {m t : Machine σ} (h : Advance code length m t) :
    t.memory.size = m.memory.size := by
  have hframe := (step_frame code m).2.2
  cases h with
  | next _ slot => rw [← hframe, slot]
  | jump _ slot => rw [← hframe, slot]

theorem Ends.size_memory {m m' : Machine σ} {r : Except RunError Halt}
    (h : Ends code length m m' r) : m'.memory.size = m.memory.size := by
  have hframe := (step_frame code m).2.2
  cases h with
  | completed _ => rfl
  | fault _ slot => rw [← hframe, slot]
  | pause _ slot => rw [← hframe, slot]

theorem Advance.of_step_eq {code' : Array Word} {m t : Machine σ}
    (hstep : step code m = step code' m) (h : Advance code length m t) :
    Advance code' length m t := by
  cases h with
  | next below slot => exact .next below (by rw [← hstep, slot])
  | jump below slot => exact .jump below (by rw [← hstep, slot])

theorem Ends.of_step_eq {code' : Array Word} {m m' : Machine σ} {r : Except RunError Halt}
    (hstep : m.cursor < length → step code m = step code' m)
    (h : Ends code length m m' r) : Ends code' length m m' r := by
  cases h with
  | completed past => exact .completed past
  | fault below slot => exact .fault below (by rw [← hstep below, slot])
  | pause below slot => exact .pause below (by rw [← hstep below, slot])

theorem Advance.congr {code' : Array Word} {m t : Machine σ}
    (hslot : Slot.read code m.cursor = Slot.read code' m.cursor) (h : Advance code length m t) :
    Advance code' length m t :=
  h.of_step_eq (step_congr hslot)

theorem Ends.congr {code' : Array Word} {m m' : Machine σ} {r : Except RunError Halt}
    (hslot : m.cursor < length → Slot.read code m.cursor = Slot.read code' m.cursor)
    (h : Ends code length m m' r) : Ends code' length m m' r :=
  h.of_step_eq fun below => step_congr (hslot below)

theorem Advance.loop_eq {m t : Machine σ} (h : Advance code length m t) :
    loop code length m = loop code length t := by
  cases h with
  | next below slot =>
      rw [loop]
      simp only [if_pos below, slot]
  | jump below slot =>
      rw [loop]
      simp only [if_pos below, slot]

theorem Ends.loop_eq {m m' : Machine σ} {r : Except RunError Halt}
    (h : Ends code length m m' r) : loop code length m = (m', r) := by
  cases h with
  | completed past =>
      rw [loop]
      simp only [if_neg (Nat.not_lt.mpr past)]
  | fault below slot =>
      rw [loop]
      simp only [if_pos below, slot]
  | pause below slot =>
      rw [loop]
      simp only [if_pos below, slot]

/-- **Induction over a run**: what holds of every ending, and of a machine if it holds of the one
it advances to, holds of every run. -/
theorem loop_induct (code : Array Word) (length : Nat)
    {P : Machine σ → Machine σ → Except RunError Halt → Prop}
    (ends : ∀ {m m' : Machine σ} {r : Except RunError Halt}, Ends code length m m' r → P m m' r)
    (advance : ∀ {m t m' : Machine σ} {r : Except RunError Halt}, Advance code length m t →
      loop code length t = (m', r) → P t m' r → P m m' r)
    (m : Machine σ) : P m (loop code length m).1 (loop code length m).2 := by
  fun_induction loop code length m with
  | case1 m pos below done e slot => exact ends (.fault below slot)
  | case2 m pos below done slot ih => exact advance (.next below slot) rfl ih
  | case3 m pos below done target slot ih => exact advance (.jump below slot) rfl ih
  | case4 m pos below done query dst slot => exact ends (.pause below slot)
  | case5 m pos past => exact ends (.completed (Nat.not_lt.mp past))

/-- A run keeps the size of the memory. -/
theorem size_memory_loop (code : Array Word) (length : Nat) (m : Machine σ) :
    (loop code length m).1.memory.size = m.memory.size :=
  loop_induct code length (fun hends => hends.size_memory)
    (fun hadv _ ih => ih.trans hadv.size_memory) m

/-- Code whose slots do the same at every boundary runs the same. -/
theorem loop_eq_of_step_eq {code' : Array Word}
    (h : ∀ m : Machine σ, m.cursor < length → m.cursor % slotWidth = 0 →
      step code m = step code' m)
    (m : Machine σ) (hm : m.cursor % slotWidth = 0) :
    loop code length m = loop code' length m := by
  refine loop_induct code length
    (P := fun m m' r => m.cursor % slotWidth = 0 → (m', r) = loop code' length m) ?_ ?_ m hm
  · intro m m' r hends hm
    exact (hends.of_step_eq fun below => h m below hm).loop_eq.symm
  · intro m t m' r hadv _ ih hm
    rw [ih (hadv.aligned hm), (hadv.of_step_eq (h m hadv.below hm)).loop_eq]

/-- A run that starts at a slot boundary ends at one. -/
theorem aligned_loop (code : Array Word) (length : Nat) (m : Machine σ)
    (hm : m.cursor % slotWidth = 0) :
    (loop code length m).1.cursor % slotWidth = 0 := by
  refine loop_induct code length
    (P := fun m m' _ => m.cursor % slotWidth = 0 → m'.cursor % slotWidth = 0) ?_ ?_ m hm
  · intro m m' r hends hm
    cases hends with
    | completed _ => exact hm
    | fault _ slot =>
        have hframe := (step_frame code m).1
        rw [slot] at hframe
        rw [hframe, hm]
    | pause _ _ => rw [Nat.add_mod_right, hm]
  · intro m t m' r hadv _ ih hm
    exact ih (hadv.aligned hm)

/-- A run that pauses leaves its register waiting and the cursor where it is to go on. -/
theorem pending_of_loop_suspended {m m' : Machine σ} {dst : Reg} {query : Word} {cursor : Nat}
    (h : loop code length m = (m', .ok (.suspended dst query cursor))) :
    m'.pending = some dst ∧ m'.cursor = cursor := by
  have key := loop_induct code length
    (P := fun (_ m' : Machine σ) r => ∀ dst query cursor, r = .ok (.suspended dst query cursor) →
      m'.pending = some dst ∧ m'.cursor = cursor) ?_ ?_ m
  · rw [h] at key
    exact key dst query cursor rfl
  · intro m m' r hends dst query cursor hr
    cases hends with
    | completed _ => simp at hr
    | fault _ _ => simp at hr
    | pause _ _ =>
        simp only [Except.ok.injEq, Halt.suspended.injEq] at hr
        obtain ⟨rfl, rfl, rfl⟩ := hr
        exact ⟨rfl, rfl⟩
  · intro m t m' r _ _ ih
    exact ih

/-- Valid code has no fault. -/
theorem exists_loop_eq_ok (hcode : Code.IsValid code length) (m : Machine σ)
    (hm : m.cursor % slotWidth = 0) : ∃ m' halt, loop code length m = (m', .ok halt) := by
  have key := loop_induct code length
    (P := fun m (_ : Machine σ) r => m.cursor % slotWidth = 0 → ∃ halt, r = .ok halt) ?_ ?_ m hm
  · obtain ⟨halt, hhalt⟩ := key
    exact ⟨_, halt, Prod.ext rfl hhalt⟩
  · intro m m' r hends hm
    cases hends with
    | completed _ => exact ⟨_, rfl⟩
    | pause _ _ => exact ⟨_, rfl⟩
    | fault below slot =>
        obtain ⟨done, flow, hok⟩ := exists_step_eq_ok (hcode.slots _ below hm)
        rw [hok] at slot
        simp at slot
  · intro m t m' r hadv _ ih hm
    exact ih (hadv.aligned hm)

end BytecodeSearch.Machine
