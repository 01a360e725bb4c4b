import BytecodeSearch.Proofs.Machine.Progress
import BytecodeSearch.Proofs.Search.Guarded
import BytecodeSearch.Proofs.Search.Outcomes

/-!
# Nothing goes wrong

A search has nothing to fail on: its programs are valid, and so no run of one fails. Nor does it ever
look for something that is not there. `InBounds` lists all the places where an attempt could: the
cases and best scores it looks up, the ranges it draws from, the words it writes and those that the
machine reads. An unfinished search is in bounds in every reachable state, and a program on its own
comes to an output, of one word for each of its slots at most (`never_faults`).

All this takes a machine to be there. A memory of `Memory.limit` words or more cannot be allocated,
so with settings that ask for it there is no search, and no program is executed on it.
-/

set_option autoImplicit false

namespace BytecodeSearch

/-! ## Memory and output -/

/-- An access to memory is at one of its words, unless there are none: then zero is read, and what is
written is discarded. -/
theorem Memory.access (memory : Memory) (addr w : Word) :
    addr.toNat % memory.size < memory.words.size ∨
      memory.size = 0 ∧ memory.read addr = 0 ∧ memory.write addr w = memory := by
  rcases Nat.eq_zero_or_pos memory.size with hnone | hsome
  · have hempty : memory.words = #[] := Array.eq_empty_of_size_eq_zero hnone
    refine .inr ⟨hnone, ?_, ?_⟩
    · rw [read, hempty]
      rfl
    · rw [write, hempty]
      show (⟨#[]⟩ : Memory) = memory
      rw [← hempty]
  · exact .inl (Nat.mod_lt _ hsome)

/-- A run to the end puts out one word for each slot of the program at most. -/
theorem Machine.runToEnd_output {σ : Type} [Sensors σ] (code : Array Word) (length : Nat)
    (answer : Word) (m : Machine σ) :
    ∃ more, (runToEnd code length answer m).1.output = m.output ++ more ∧
      more.size ≤ length / slotWidth := by
  obtain ⟨more, hmore, hsize⟩ := finish_run_output code length 0 answer m
  refine ⟨more, by rw [runToEnd_eq_finish, hmore], Nat.le_trans hsize ?_⟩
  exact Nat.div_le_div_right (Nat.sub_le _ _)

namespace Program

theorem exists_execute_size_le {p : Program} (hp : Code.IsValid p.code p.length)
    (input : Array Word) (memorySize : Nat) :
    ∃ out, p.execute input memorySize = .ok out ∧ out.size ≤ p.slots := by
  obtain ⟨m, hm⟩ := Machine.exists_runToEnd_eq_ok hp scoringAnswer
    (m := (Machine.fresh memorySize NoHost.mk).load input) rfl
  obtain ⟨more, hmore, hsize⟩ := Machine.runToEnd_output p.code p.length scoringAnswer
    ((Machine.fresh memorySize NoHost.mk).load input)
  refine ⟨m.output, by simp only [execute, hm], ?_⟩
  -- a fresh machine has put out nothing
  have hnone : ((Machine.fresh memorySize NoHost.mk).load input).output = #[] := rfl
  rw [hm, hnone, Array.empty_append] at hmore
  rw [hmore]
  exact hsize

/-- Where the memory can be allocated, executing a valid program gives an output. -/
theorem exists_executeChecked_size_le {p : Program} (hp : Code.IsValid p.code p.length)
    (input : Array Word) {memorySize : Nat} (hsize : memorySize < Memory.limit) :
    ∃ out, p.executeChecked input memorySize = .ok out ∧ out.size ≤ p.slots := by
  obtain ⟨out, hout, hle⟩ := exists_execute_size_le hp input memorySize
  refine ⟨out, ?_, hle⟩
  rw [executeChecked_of_lt p input hsize, hout]
  rfl

/-- The offsets of the slots that scoring the program dispatches in the calls up to number `n`. -/
def slotsRead {σ : Type} [Sensors σ] (p : Program) (m : Machine σ) (n : Nat) : List Nat :=
  Machine.chainVisited p.code p.length 0 (fun _ => scoringAnswer) m n

/-- Scoring the program, from any machine, reads slots that are in its buffer as a whole, and nothing
else of the buffer. -/
def ReadsInside (σ : Type) [Sensors σ] (p : Program) : Prop :=
  ∀ (m : Machine σ) (n : Nat), (∀ pos ∈ p.slotsRead m n, pos + slotWidth ≤ p.code.size) ∧
    ∀ code : Array Word, code.size = p.code.size →
      (∀ pos ∈ p.slotsRead m n, Slot.read p.code pos = Slot.read code pos) →
        Machine.chain code p.length 0 (fun _ => scoringAnswer) m n =
          Machine.chain p.code p.length 0 (fun _ => scoringAnswer) m n

theorem readsInside {σ : Type} [Sensors σ] (p : Program) : p.ReadsInside σ := by
  intro m n
  constructor
  · intro pos hpos
    obtain ⟨-, -, hfits, hbuffer⟩ :=
      (Machine.forward_chain p.code p.length 0 (fun _ => scoringAnswer) m n).inside pos hpos
    exact Nat.le_trans hfits hbuffer
  · intro code hsize hsame
    exact Machine.chain_congr_visited _ _ _ _ _ hsize n hsame

end Program

/-! ## Drawing opcodes -/

/-- Where there is room for a jump, the first opcode drawn is taken. -/
theorem Edit.chooseOpcode_true (tries : Nat) : chooseOpcode true (tries + 1) =
    Choice.number (.large Opcode.count) >>= fun i => pure (Opcode.all.getD i .set) := by
  simp only [chooseOpcode, Bool.not_true, Bool.and_false, Bool.false_eq_true, if_false]

namespace Search

/-! ## Attempts stay in bounds -/

/-- What an attempt looks up is there, and every range it draws from has numbers in it. -/
structure InBounds {σ ρ : Type} [Sensors σ] (s : Search σ ρ) : Prop where
  /-- Every case up to the current one has a best score. -/
  cases : ∀ i ≤ s.current, i < s.curriculum.size ∧ i < s.best.size
  /-- No range is empty, and a legal edit is drawn. -/
  draws : (Edit.choose s.program.length s.settings.mutationSpeed s.settings.registers).Ensures
    (Edit.IsLegal s.program.length (Edit.clampRegisters s.settings.registers))
  /-- The largest range has a size of 64 bits if the speed has 32. -/
  product : s.settings.mutationSpeed < 2 ^ 32 →
    s.program.length + slotWidth ≤ Program.maxLength →
      s.program.length * max s.settings.mutationSpeed 1 < 2 ^ 64
  /-- The first opcode drawn is taken, however often another one may be drawn, as long as jumps can
  reach the end of the program. -/
  opcode : s.program.length ≤ Program.maxLength →
    (Edit.choosePlace s.program.length (max s.settings.mutationSpeed 1)).Ensures fun place =>
      ∀ tries, Edit.chooseOpcode (place.1 + slotWidth ≤ min place.2 Program.maxLength) (tries + 1) =
        Choice.number (.large Opcode.count) >>= fun i => pure (Opcode.all.getD i .set)
  /-- An edit writes inside the buffer, and the program is inside of it behind the edit and when the
  edit is undone. -/
  writes : ∀ edit : Edit,
    edit.IsLegal s.program.length (Edit.clampRegisters s.settings.registers) →
      edit.pos + slotWidth ≤ (s.editor.apply edit).program.code.size ∧
      Code.IsLength (s.editor.apply edit).program.length (s.editor.apply edit).program.code.size ∧
      Code.IsLength (s.editor.apply edit).rollback.1.program.length
        (s.editor.apply edit).rollback.1.program.code.size
  /-- Scoring the edited program reads inside its buffer. -/
  reads : ∀ edit : Edit, (s.editor.apply edit).program.ReadsInside σ

variable {σ ρ : Type} [Sensors σ] [Generator ρ] {s : Search σ ρ}

omit [Generator ρ] in
theorem TableInv.inBounds (hs : TableInv s) (hopen : s.current < s.curriculum.size) :
    InBounds s := by
  have hlength := hs.valid.isLength.1
  constructor
  · intro i hi
    have hlt := Nat.lt_of_le_of_lt hi hopen
    exact ⟨hlt, hs.size_best.symm ▸ hlt⟩
  · exact Edit.ensures_choose hlength _ _
  · exact Guarded.mul_speed_lt
  · intro hreach
    refine (Edit.ensures_choosePlace hlength (Nat.le_max_right _ 1)).mono ?_
    rintro ⟨pos, newLength⟩ ⟨hplace, hpos⟩ tries
    have hroom := hplace.room hlength hpos hreach
    rw [decide_eq_true hroom]
    exact Edit.chooseOpcode_true tries
  · intro edit hedit
    have hvalid := Editor.isValid_apply hs.valid hedit (Edit.clampRegisters_le _)
    have hundone := Editor.isValid_rollback_apply hs.valid hedit.aligned
    exact ⟨Program.le_size_write _ _ _ _, hvalid.isLength, hundone.isLength⟩
  · exact fun edit => Program.readsInside _

theorem Reachable.exists_eq_ok (h : Reachable s) (budgets : List Nat) :
    ∀ r ∈ (stepAll budgets s).2, ∃ outcome, r = .ok outcome := by
  induction budgets generalizing s with
  | nil => intro r hr; cases hr
  | cons budget rest ih =>
      intro r hr
      rcases List.mem_cons.mp hr with rfl | hlater
      · have hcurrent : s.current = min s.current s.curriculum.size :=
          (Nat.min_eq_left h.tallied.current_le).symm
        rcases (h.step_report hcurrent budget).2 with ⟨hstill, -⟩ | ⟨hreport, -⟩
        · exact ⟨_, hstill⟩
        · exact ⟨_, hreport⟩
      · exact ih (h.step budget) r hlater

/-- **A search never faults.** From any program there is a way to come by, with any curriculum,
settings, host and generator, every call of a search comes to an outcome, and every attempt of an
unfinished search stays in bounds. The program on its own comes to an output on every input and with
a memory of any size below the limit, also of none, and the output has at most as many words as the
program has slots; and neither reads behind the end of the buffer.

Below the limit the search is there to be called. From the limit on its memory is refused, and so is
that of the program on its own. -/
theorem never_faults {p : Program} (hp : Editor.Obtained p) :
    (∀ (curriculum : Array Case) (settings : Settings) (host : σ) (generator : ρ)
        (budgets : List Nat) (t : Search σ ρ) (outcomes : List (Except RunError Outcome)),
      stepAll budgets (ofParts curriculum settings p host generator).1 = (t, outcomes) →
        (∀ r ∈ outcomes, ∃ outcome, r = .ok outcome) ∧
          (t.isFinished = false → ∀ n u, Searches n t u → InBounds u)) ∧
      (∀ input memorySize, memorySize < Memory.limit →
        ∃ out, p.executeChecked input memorySize = .ok out ∧ out.size ≤ p.slots) ∧
      (∀ (curriculum : Array Case) (settings : Settings) (host : σ) (generator : ρ),
        (settings.memorySize < Memory.limit →
          create curriculum settings p host generator =
            .ok (ofParts curriculum settings p host generator)) ∧
        (Memory.limit ≤ settings.memorySize →
          create curriculum settings p host generator = .error ⟨settings.memorySize⟩)) ∧
      (∀ input memorySize, Memory.limit ≤ memorySize →
        p.executeChecked input memorySize = .error (.memory ⟨memorySize⟩)) ∧
      p.ReadsInside NoHost ∧
      ∀ (memory : Memory) (addr w : Word), addr.toNat % memory.size < memory.words.size ∨
        memory.size = 0 ∧ memory.read addr = 0 ∧ memory.write addr w = memory := by
  have hvalid := hp.isSound.valid
  refine ⟨fun curriculum settings host generator budgets t outcomes hcalls => ?_,
    fun input _ => Program.exists_executeChecked_size_le hvalid input,
    fun curriculum _ host generator => ⟨create_of_lt curriculum p host generator,
      create_of_le curriculum p host generator⟩,
    fun input _ => p.executeChecked_of_le input, p.readsInside, Memory.access⟩
  have hstart := Reachable.ofParts curriculum settings p host generator
    (Code.validate_eq_ok_iff.mpr hvalid)
  have hoks := hstart.exists_eq_ok budgets
  have hreachable := reachable_stepAll hstart budgets
  simp only [hcalls] at hoks hreachable
  refine ⟨hoks, fun hopen n u hsearches => ?_⟩
  have hunfinished : u.isFinished = false := hsearches.isFinished_eq.trans hopen
  exact (hsearches.reachable hreachable hopen).tallied.inBounds
    (isFinished_eq_false_iff.mp hunfinished)

/-- A search that starts from a program which fills its buffer, without memory. -/
def growing : Search NoHost Replay :=
  (ofParts #[⟨#[7], #[1, 2]⟩] { memorySize := 0 } Editor.crowded NoHost.mk Editor.appending).1

/-- The first edit makes the buffer grow, and no word of the input fits in memory. -/
theorem never_faults_crowded : Editor.Obtained Editor.crowded ∧
    create #[⟨#[7], #[1, 2]⟩] { memorySize := 0 } Editor.crowded NoHost.mk Editor.appending =
      .ok (growing, []) ∧
    growing.isFinished = false ∧ InBounds growing ∧
    (∀ r ∈ (stepAll [1, 0, 2] growing).2, ∃ outcome, r = .ok outcome) ∧
    ∃ out, Editor.crowded.executeChecked #[7] 0 = .ok out ∧ out.size ≤ 16 := by
  have hopen : growing.isFinished = false := by decide
  obtain ⟨hsearch, hexecute, hcreate, -⟩ :=
    never_faults (σ := NoHost) (ρ := Replay) Editor.obtained_crowded
  have hinBounds := (hsearch _ _ _ _ [] growing [] rfl).2 hopen 0 growing (.refl growing)
  have hoks := (hsearch _ _ _ _ [1, 0, 2] _ _ (Prod.eta (stepAll [1, 0, 2] growing)).symm).1
  exact ⟨Editor.obtained_crowded, (hcreate _ _ _ _).1 (by decide), hopen, hinBounds, hoks,
    hexecute #[7] 0 (by decide)⟩

/-- A memory of `2 ^ 62` words is not to be had, so the sixteen slots have no output with it. -/
theorem not_execute_every_size : Editor.Obtained Editor.crowded ∧
    Editor.crowded.executeChecked #[7] 4611686018427387904 =
      .error (.memory ⟨4611686018427387904⟩) ∧
    ¬ ∀ input memorySize, ∃ out, Editor.crowded.executeChecked input memorySize = .ok out ∧
      out.size ≤ Editor.crowded.slots := by
  have hrefused : Editor.crowded.executeChecked #[7] 4611686018427387904 =
      .error (.memory ⟨4611686018427387904⟩) := Program.executeChecked_of_le _ _ (by decide)
  refine ⟨Editor.obtained_crowded, hrefused, fun hevery => ?_⟩
  obtain ⟨out, hout, -⟩ := hevery #[7] 4611686018427387904
  rw [hrefused] at hout
  cases hout

end Search

end BytecodeSearch
