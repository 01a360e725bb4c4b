import BytecodeSearch.Proofs.Machine.Dispatch

/-!
# Starting, resuming and running to the end

A call that is not refused is a run from the cursor it is given or has saved (`run_eq_loop`,
`resume_eq_loop`). What holds of runs then holds of calls, and of a run to the end, which is a
chain of calls: it looks at the slots of the program only (`runToEnd_congr`), keeps the size of the
memory, and on valid code comes to its end without a fault (`exists_runToEnd_eq_ok`).

`Program.execute` is such a run on a fresh machine, so it gives an output for every valid program,
and the same output for programs with the same slots.
-/

set_option autoImplicit false

namespace BytecodeSearch.Machine

variable {σ : Type} [Sensors σ] {code code' : Array Word} {length : Nat}

/-! ## Calls -/

theorem start_eq_loop (hlength : Code.IsLength length code.size) {cursor : Nat}
    (hcursor : cursor % slotWidth = 0) (m : Machine σ) :
    start code length cursor m = loop code length { m with cursor := cursor } := by
  rw [start, Code.checkLength_eq_ok_iff.mpr hlength]
  exact if_pos hcursor

/-- The machine with the answer in the register that waited for it. -/
def take (m : Machine σ) (dst : Reg) (answer : Word) : Machine σ :=
  Machine.put { m with pending := none } dst answer

theorem run_of_rest {m : Machine σ} (hm : m.pending = none) (cursor : Nat) :
    run code length cursor m = start code length cursor m := by
  simp [run, hm]

theorem run_of_pending {m : Machine σ} {dst : Reg} (hm : m.pending = some dst) (cursor : Nat) :
    run code length cursor m = (m, .error (.alreadySuspended m.cursor)) := by
  simp [run, hm]

theorem resume_of_rest {m : Machine σ} (hm : m.pending = none) (answer : Word) :
    resume code length answer m = (m, .error .notSuspended) := by
  simp only [resume, hm]

theorem resume_of_pending {m : Machine σ} {dst : Reg} (hm : m.pending = some dst) (answer : Word) :
    resume code length answer m = start code length m.cursor (m.take dst answer) := by
  simp only [resume, hm]
  rfl

theorem run_eq_loop (hlength : Code.IsLength length code.size) {cursor : Nat}
    (hcursor : cursor % slotWidth = 0) {m : Machine σ} (hm : m.pending = none) :
    run code length cursor m = loop code length { m with cursor := cursor } := by
  rw [run_of_rest hm, start_eq_loop hlength hcursor]

theorem resume_eq_loop (hlength : Code.IsLength length code.size) (answer : Word) {m : Machine σ}
    {dst : Reg} (hm : m.pending = some dst) (hcursor : m.cursor % slotWidth = 0) :
    resume code length answer m = loop code length (m.take dst answer) := by
  rw [resume_of_pending hm]
  exact start_eq_loop hlength hcursor _

theorem size_memory_start (code : Array Word) (length cursor : Nat) (m : Machine σ) :
    (start code length cursor m).1.memory.size = m.memory.size := by
  simp only [start]
  split
  · rfl
  · split
    · exact size_memory_loop _ _ _
    · rfl

theorem size_memory_run (code : Array Word) (length cursor : Nat) (m : Machine σ) :
    (run code length cursor m).1.memory.size = m.memory.size := by
  simp only [run]
  split
  · rfl
  · exact size_memory_start _ _ _ _

theorem size_memory_resume (code : Array Word) (length : Nat) (answer : Word) (m : Machine σ) :
    (resume code length answer m).1.memory.size = m.memory.size := by
  simp only [resume]
  split
  · rfl
  · exact size_memory_start _ _ _ _

/-- Code whose slots do the same at every boundary starts the same. -/
theorem start_eq_of_step_eq (hlength : Code.IsLength length code.size)
    (hlength' : Code.IsLength length code'.size)
    (h : ∀ m : Machine σ, m.cursor < length → m.cursor % slotWidth = 0 →
      step code m = step code' m)
    (cursor : Nat) (m : Machine σ) : start code length cursor m = start code' length cursor m := by
  simp only [start, Code.checkLength_eq_ok_iff.mpr hlength, Code.checkLength_eq_ok_iff.mpr hlength']
  by_cases hcursor : cursor % slotWidth = 0
  · rw [if_pos hcursor, if_pos hcursor]
    exact loop_eq_of_step_eq h _ hcursor
  · rw [if_neg hcursor, if_neg hcursor]

/-- A call looks at the slots of the program only. -/
theorem start_congr (hlength : Code.IsLength length code.size)
    (hlength' : Code.IsLength length code'.size)
    (h : ∀ pos < length, pos % slotWidth = 0 → Slot.read code pos = Slot.read code' pos)
    (cursor : Nat) (m : Machine σ) : start code length cursor m = start code' length cursor m :=
  start_eq_of_step_eq hlength hlength' (fun _ below hm => step_congr (h _ below hm)) cursor m

/-! ## Chains of calls -/

/-- What the calls of a chain come to: the first is `run`, and each one behind it resumes the
machine of the call before with the next of the answers, whatever that call has come to. -/
def chain (code : Array Word) (length cursor : Nat) (answers : Nat → Word) (m : Machine σ) :
    Nat → Machine σ × Except RunError Halt
  | 0 => run code length cursor m
  | n + 1 => resume code length (answers n) (chain code length cursor answers m n).1

/-- A machine that waits does so at a slot boundary. -/
def RestsAligned (m : Machine σ) : Prop := m.isSuspended = true → m.cursor % slotWidth = 0

omit [Sensors σ] in
theorem restsAligned_of_pending {m : Machine σ} (hm : m.pending = none) : RestsAligned m := by
  intro hwaits
  simp [isSuspended, hm] at hwaits

theorem restsAligned_start (code : Array Word) (length cursor : Nat) {m : Machine σ}
    (hm : m.pending = none) : RestsAligned (start code length cursor m).1 := by
  have hrefused := restsAligned_of_pending hm
  simp only [start]
  split
  · exact hrefused
  · split
    · rename_i hcursor
      exact fun _ => aligned_loop code length { m with cursor := cursor } hcursor
    · exact hrefused

theorem restsAligned_resume (code : Array Word) (length : Nat) (answer : Word) (m : Machine σ) :
    RestsAligned (resume code length answer m).1 := by
  cases hm : m.pending with
  | none =>
      rw [resume_of_rest hm]
      exact restsAligned_of_pending hm
  | some dst =>
      rw [resume_of_pending hm]
      exact restsAligned_start code length m.cursor rfl

/-- In a chain that starts on a machine at rest, every machine that waits stands at a slot
boundary. -/
theorem restsAligned_chain (code : Array Word) (length cursor : Nat) (answers : Nat → Word)
    {m : Machine σ} (hm : m.pending = none) (n : Nat) :
    RestsAligned (chain code length cursor answers m n).1 := by
  cases n with
  | zero =>
      rw [chain, run_of_rest hm]
      exact restsAligned_start code length cursor hm
  | succ n => exact restsAligned_resume _ _ _ _

/-! ## Runs to the end -/

theorem size_memory_resumeAll (code : Array Word) (length : Nat) (answer : Word)
    (m : Machine σ) : (resumeAll code length answer m).1.memory.size = m.memory.size := by
  have hresume : ∀ m : Machine σ, _ := size_memory_resume code length answer
  fun_induction resumeAll code length answer m with
  | case1 m m' e h => rw [← hresume m, h]
  | case2 m m' h => rw [← hresume m, h]
  | case3 m m' dst query cursor h ih => rw [ih, ← hresume m, h]

theorem size_memory_runToEnd (code : Array Word) (length : Nat) (answer : Word)
    (m : Machine σ) : (runToEnd code length answer m).1.memory.size = m.memory.size := by
  have hrun := size_memory_run code length 0 m
  simp only [runToEnd]
  split
  · rename_i h
    rw [← hrun, h]
  · rename_i h
    rw [← hrun, h]
  · rename_i h
    rw [size_memory_resumeAll, ← hrun, h]

theorem resumeAll_congr (hlength : Code.IsLength length code.size)
    (hlength' : Code.IsLength length code'.size)
    (h : ∀ pos < length, pos % slotWidth = 0 → Slot.read code pos = Slot.read code' pos)
    (answer : Word) (m : Machine σ) :
    resumeAll code length answer m = resumeAll code' length answer m := by
  have hresume : ∀ m : Machine σ, resume code' length answer m = resume code length answer m := by
    intro m
    simp only [resume]
    split
    · rfl
    · exact (start_congr hlength hlength' h _ _).symm
  fun_induction resumeAll code length answer m with
  | case1 m m' e hm => rw [resumeAll.eq_def, hresume, hm]
  | case2 m m' hm => rw [resumeAll.eq_def, hresume, hm]
  | case3 m m' dst query cursor hm ih =>
      rw [ih, resumeAll.eq_def code' length answer m, hresume, hm]

/-- A run to the end looks at the slots of the program only. -/
theorem runToEnd_congr (hlength : Code.IsLength length code.size)
    (hlength' : Code.IsLength length code'.size)
    (h : ∀ pos < length, pos % slotWidth = 0 → Slot.read code pos = Slot.read code' pos)
    (answer : Word) (m : Machine σ) :
    runToEnd code length answer m = runToEnd code' length answer m := by
  have hrun : run code length 0 m = run code' length 0 m := by
    simp only [run, start_congr hlength hlength' h]
  simp only [runToEnd, hrun, resumeAll_congr hlength hlength' h]

/-- On valid code a machine that waits comes to the end. -/
theorem exists_resumeAll_eq_ok (hcode : Code.IsValid code length) (answer : Word) (m : Machine σ)
    (hm : ∃ dst, m.pending = some dst) (hcursor : m.cursor % slotWidth = 0) :
    ∃ m', resumeAll code length answer m = (m', .ok ()) := by
  have hresume : ∀ {m m' : Machine σ} {r}, (∃ dst, m.pending = some dst) →
      m.cursor % slotWidth = 0 → resume code length answer m = (m', r) →
        ∃ t : Machine σ, t.cursor % slotWidth = 0 ∧ loop code length t = (m', r) := by
    rintro m m' r ⟨dst, hdst⟩ hcursor h
    exact ⟨m.take dst answer, hcursor,
      by rw [← h, resume_eq_loop hcode.isLength answer hdst hcursor]⟩
  fun_induction resumeAll code length answer m with
  | case1 m m' e h =>
      obtain ⟨t, ht, hloop⟩ := hresume hm hcursor h
      obtain ⟨u, halt, hok⟩ := exists_loop_eq_ok hcode t ht
      rw [hok] at hloop
      simp at hloop
  | case2 m m' h => exact ⟨m', rfl⟩
  | case3 m m' dst query cursor h ih =>
      obtain ⟨t, ht, hloop⟩ := hresume hm hcursor h
      refine ih ⟨dst, (pending_of_loop_suspended hloop).1⟩ ?_
      have haligned := aligned_loop code length t ht
      rwa [hloop] at haligned

/-- On valid code a machine at rest comes to the end. -/
theorem exists_runToEnd_eq_ok (hcode : Code.IsValid code length) (answer : Word) {m : Machine σ}
    (hm : m.pending = none) : ∃ m', runToEnd code length answer m = (m', .ok ()) := by
  have hrun := run_eq_loop hcode.isLength (Nat.zero_mod slotWidth) hm
  obtain ⟨m', halt, hok⟩ := exists_loop_eq_ok hcode { m with cursor := 0 } (Nat.zero_mod slotWidth)
  cases halt with
  | completed =>
      refine ⟨m', ?_⟩
      simp only [runToEnd, hrun, hok]
  | suspended dst query cursor =>
      have haligned := aligned_loop code length { m with cursor := 0 }
        (Nat.zero_mod slotWidth)
      rw [hok] at haligned
      obtain ⟨m'', hend⟩ := exists_resumeAll_eq_ok hcode answer m'
        ⟨dst, (pending_of_loop_suspended hok).1⟩ haligned
      refine ⟨m'', ?_⟩
      simp only [runToEnd, hrun, hok, hend]

end Machine

namespace Program

/-- A valid program gives an output on every input. -/
theorem exists_execute_eq_ok {p : Program} (hp : Code.IsValid p.code p.length)
    (input : Array Word) (memorySize : Nat) :
    ∃ output, p.execute input memorySize = .ok output := by
  obtain ⟨m, hm⟩ := Machine.exists_runToEnd_eq_ok hp scoringAnswer
    (m := (Machine.fresh memorySize NoHost.mk).load input) rfl
  exact ⟨m.output, by simp only [execute, hm]⟩

/-- Programs with the same slots give the same output. -/
theorem execute_congr {p q : Program} (hlength : p.length = q.length)
    (hp : Code.IsLength p.length p.code.size) (hq : Code.IsLength q.length q.code.size)
    (h : ∀ pos < p.length, pos % slotWidth = 0 → Slot.read p.code pos = Slot.read q.code pos)
    (input : Array Word) (memorySize : Nat) :
    p.execute input memorySize = q.execute input memorySize := by
  rw [← hlength] at hq
  simp only [execute, ← hlength, Machine.runToEnd_congr hp hq h]

end Program

end BytecodeSearch
