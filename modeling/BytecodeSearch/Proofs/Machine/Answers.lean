import BytecodeSearch.Proofs.Machine.Calls
import Mathlib

/-!
# Answers written into the code

A host answers the pauses of a run one after the other (`Answered`). Every slot runs at most once,
because jumps go forward, so the answer a slot was given can be written into the code: the slot
`in q, d` becomes `set v, d` (`withAnswers`). The main statement, `run_withAnswers`, says that a run
of that code does in one go what the run with all its pauses has done.

The proof follows the run. Up to a pause both codes have the same slots (`loop_withAnswer`); at the
pause, setting the register and handing over the answer come to the same machine; and the slots
answered later lie further on (`Answered.slots`).
-/

set_option autoImplicit false

namespace BytecodeSearch.Machine

variable {σ : Type} [Sensors σ] {code code' : Array Word} {length : Nat}

/-! ## Where a run pauses -/

/-- A run that pauses at `pos` has come there from its cursor and has found an `in` slot, and the
second argument word of the slot names the register that waits. -/
structure PausesAt (code : Array Word) (length start pos : Nat) (dst : Reg) : Prop where
  /-- The run has gone forward. -/
  start_le : start ≤ pos
  /-- The slot belongs to the program. -/
  below : pos < length
  /-- It stands at a slot boundary. -/
  aligned : pos % slotWidth = 0
  /-- It is the slot of an `in` instruction. -/
  opcode : (Slot.read code pos).opcode = Opcode.ask.word
  /-- It names the register. -/
  register : Reg.read pos (Slot.read code pos).arg2 = .ok dst

theorem pausesAt_of_step {m done : Machine σ} {query : Word} {dst : Reg}
    (hm : m.cursor % slotWidth = 0) (below : m.cursor < length)
    (slot : step code m = (done, .ok (.pause query dst))) :
    PausesAt code length m.cursor m.cursor dst ∧ done = counted m := by
  obtain ⟨op, i, hop, hi, hexec⟩ := step_eq_ok_iff.mp slot
  obtain ⟨r, rfl, -, hdone⟩ := eq_ask_of_exec_pause hexec
  obtain ⟨rfl, -, hdst⟩ := Slot.eq_ask_of_decodeArgs hi
  exact ⟨⟨Nat.le_refl _, below, hm, Opcode.ofWord?_eq_some_iff.mp hop, hdst⟩, hdone⟩

/-- A run that pauses leaves the cursor behind the slot it pauses at, and its register waiting. -/
theorem pausesAt_of_loop {m m' : Machine σ} {dst : Reg} {query : Word} {cursor : Nat}
    (hm : m.cursor % slotWidth = 0)
    (h : loop code length m = (m', .ok (.suspended dst query cursor))) :
    m'.pending = some dst ∧ m'.cursor = cursor ∧
      ∃ pos, cursor = pos + slotWidth ∧ PausesAt code length m.cursor pos dst := by
  have key := loop_induct code length
    (P := fun (m m' : Machine σ) r => m.cursor % slotWidth = 0 → ∀ dst query cursor,
      r = .ok (.suspended dst query cursor) → m'.pending = some dst ∧ m'.cursor = cursor ∧
        ∃ pos, cursor = pos + slotWidth ∧ PausesAt code length m.cursor pos dst) ?_ ?_ m
  · rw [h] at key
    exact key hm dst query cursor rfl
  · intro m m' r hends hm dst query cursor hr
    cases hends with
    | completed _ => simp at hr
    | fault _ _ => simp at hr
    | pause below slot =>
        simp only [Except.ok.injEq, Halt.suspended.injEq] at hr
        obtain ⟨rfl, rfl, rfl⟩ := hr
        exact ⟨rfl, rfl, m.cursor, rfl, (pausesAt_of_step hm below slot).1⟩
  · intro m t m' r hadv _ ih hm dst query cursor hr
    obtain ⟨hpending, hcursor, pos, hpos, hat⟩ := ih (hadv.aligned hm) dst query cursor hr
    have hle : m.cursor ≤ pos := Nat.le_trans (Nat.le_of_lt hadv.cursor_lt) hat.start_le
    exact ⟨hpending, hcursor, pos, hpos, { hat with start_le := hle }⟩

/-! ## Writing answers -/

/-- The code with `set answer, d` in place of the `in q, d` at `pos`. -/
def withAnswer (code : Array Word) (pos : Nat) (answer : Word) : Array Word :=
  Program.store code pos (Slot.ofArgs .set [answer, (Slot.read code pos).arg2]).words

/-- The code with all these answers written in, each at its offset. -/
def withAnswers (code : Array Word) : List (Nat × Word) → Array Word
  | [] => code
  | (pos, answer) :: rest => withAnswers (withAnswer code pos answer) rest

@[simp] theorem size_withAnswers (code : Array Word) (answers : List (Nat × Word)) :
    (withAnswers code answers).size = code.size := by
  induction answers generalizing code with
  | nil => rfl
  | cons a rest ih => rw [withAnswers, ih, withAnswer, Program.size_store]

/-- The offsets are those of slots of the code, in increasing order. -/
structure IsScript (code : Array Word) (answers : List (Nat × Word)) : Prop where
  /-- Every offset is a slot boundary with a whole slot behind it. -/
  slots : ∀ a ∈ answers, a.1 % slotWidth = 0 ∧ a.1 + slotWidth ≤ code.size
  /-- Every offset is above the ones before. -/
  sorted : answers.Pairwise (·.1 < ·.1)

theorem IsScript.tail {a : Nat × Word} {rest : List (Nat × Word)}
    (h : IsScript code (a :: rest)) : IsScript (withAnswer code a.1 a.2) rest := by
  refine ⟨fun b hb => ?_, (List.pairwise_cons.mp h.sorted).2⟩
  rw [withAnswer, Program.size_store]
  exact h.slots b (List.mem_cons_of_mem a hb)

/-- Slots without an answer stay as they are. -/
theorem read_withAnswers_of_ne {answers : List (Nat × Word)} (h : IsScript code answers)
    {pos : Nat} (hpos : pos % slotWidth = 0) (hne : ∀ a ∈ answers, pos ≠ a.1) :
    Slot.read (withAnswers code answers) pos = Slot.read code pos := by
  induction answers generalizing code with
  | nil => rfl
  | cons a rest ih =>
      obtain ⟨haligned, hfits⟩ := h.slots a List.mem_cons_self
      rw [withAnswers, ih h.tail fun b hb => hne b (List.mem_cons_of_mem a hb), withAnswer,
        Program.read_store_ne _ hfits haligned hpos (hne a List.mem_cons_self)]

/-- A slot with an answer sets its register. -/
theorem read_withAnswers_of_mem {answers : List (Nat × Word)} (h : IsScript code answers)
    {a : Nat × Word} (ha : a ∈ answers) :
    Slot.read (withAnswers code answers) a.1 =
      Slot.ofArgs .set [a.2, (Slot.read code a.1).arg2] := by
  induction answers generalizing code with
  | nil => simp at ha
  | cons b rest ih =>
      obtain ⟨haligned, hfits⟩ := h.slots b List.mem_cons_self
      have hafter := (List.pairwise_cons.mp h.sorted).1
      rw [withAnswers]
      rcases List.mem_cons.mp ha with rfl | hrest
      · -- the answers behind this one leave its slot alone
        rw [read_withAnswers_of_ne h.tail haligned fun c hc => Nat.ne_of_lt (hafter c hc),
          withAnswer, Program.read_store_self _ hfits]
      · have hne : a.1 ≠ b.1 := (Nat.ne_of_lt (hafter a hrest)).symm
        rw [ih h.tail hrest, withAnswer, Program.read_store_ne _ hfits haligned
          (h.slots a ha).1 hne]

/-! ## Up to a pause -/

/-- **The step of the simulation**: if the slots before a pause are the same in both codes, and the
second code sets the register at the pause, its run comes to where the first one is resumed. -/
theorem loop_withAnswer {m m' : Machine σ} {dst : Reg} {query answer : Word} {pos : Nat}
    (hm : m.cursor % slotWidth = 0) (hpending : m.pending = none)
    (h : loop code length m = (m', .ok (.suspended dst query (pos + slotWidth))))
    (hbefore : ∀ q < pos, m.cursor ≤ q → q % slotWidth = 0 →
      Slot.read code q = Slot.read code' q)
    (hat : Slot.read code' pos = Slot.ofArgs .set [answer, (Slot.read code pos).arg2]) :
    loop code' length m = loop code' length (m'.take dst answer) := by
  have key := loop_induct code length
    (P := fun (m m' : Machine σ) r => m.cursor % slotWidth = 0 → m.pending = none →
      r = .ok (.suspended dst query (pos + slotWidth)) →
        (∀ q < pos, m.cursor ≤ q → q % slotWidth = 0 → Slot.read code q = Slot.read code' q) →
          loop code' length m = loop code' length (m'.take dst answer)) ?_ ?_ m
  · rw [h] at key
    exact key hm hpending rfl hbefore
  · intro m m' r hends hm hpending hr _
    cases hends with
    | completed _ => simp at hr
    | fault _ _ => simp at hr
    | @pause done q d below slot =>
        simp only [Except.ok.injEq, Halt.suspended.injEq, Nat.add_right_cancel_iff] at hr
        obtain ⟨rfl, rfl, hpos⟩ := hr
        obtain ⟨hpause, rfl⟩ := pausesAt_of_step hm below slot
        rw [← hpos] at hat
        -- the `set` slot counts as a step, stores the answer and goes to the next slot
        have hstep : step code' m = ((counted m).put d answer, .ok .next) := by
          refine step_eq_ok_iff.mpr ⟨.set, .set answer d, ?_, ?_, rfl⟩
          · rw [hat]
            exact Opcode.ofWord?_word .set
          · rw [hat]
            exact Slot.decodeArgs_set hpause.register
        rw [(Advance.next below hstep).loop_eq]
        simp only [take, put, counted, hpending]
  · intro m t m' r hadv hloop ih hm hpending hr hbefore
    have hpos : t.cursor ≤ pos := by
      rw [hr] at hloop
      obtain ⟨-, -, pos', hpos', hat'⟩ := pausesAt_of_loop (hadv.aligned hm) hloop
      have hle := hat'.start_le
      omega
    have hlt := hadv.cursor_lt
    have hsame := hbefore m.cursor (by omega) (Nat.le_refl _) hm
    rw [(hadv.congr hsame).loop_eq]
    exact ih (hadv.aligned hm) (hadv.pending.trans hpending) hr
      fun q hq hle => hbefore q hq (by omega)

/-! ## All pauses -/

/-- A host answers the pauses of a run on the same code until it ends for good. The run has come to
`start`, and ends at `last`; `answers` lists, in order, the offsets of the slots that have paused
and the answers they have got. -/
inductive Answered (code : Array Word) (length : Nat) :
    Machine σ × Except RunError Halt → List (Nat × Word) →
      Machine σ × Except RunError Halt → Prop where
  /-- The run does not wait for an answer. -/
  | ended {m : Machine σ} {r : Except RunError Halt}
      (final : ∀ dst query cursor, r ≠ .ok (.suspended dst query cursor)) :
      Answered code length (m, r) [] (m, r)
  /-- The run waits behind the slot that has paused, and is resumed. -/
  | answer {m : Machine σ} {dst : Reg} {query : Word} {cursor : Nat} (answer : Word)
      {answers : List (Nat × Word)} {last : Machine σ × Except RunError Halt}
      (rest : Answered code length (resume code length answer m) answers last) :
      Answered code length (m, .ok (.suspended dst query cursor))
        ((cursor - slotWidth, answer) :: answers) last

theorem Answered.of_suspended {start last : Machine σ × Except RunError Halt} {dst : Reg}
    {query : Word} {cursor : Nat} {answers : List (Nat × Word)}
    (h : start.2 = .ok (.suspended dst query cursor)) (answer : Word)
    (rest : Answered code length (resume code length answer start.1) answers last) :
    Answered code length start ((cursor - slotWidth, answer) :: answers) last := by
  obtain ⟨m, r⟩ := start
  cases h
  exact .answer answer rest

theorem Answered.of_completed {start : Machine σ × Except RunError Halt}
    (h : start.2 = .ok .completed) : Answered code length start [] start :=
  .ended fun _ _ _ hsuspended => by simp [h] at hsuspended

theorem Answered.final {start last : Machine σ × Except RunError Halt}
    {answers : List (Nat × Word)} (h : Answered code length start answers last) :
    ∀ dst query cursor, last.2 ≠ .ok (.suspended dst query cursor) := by
  induction h with
  | ended final => exact final
  | answer _ _ ih => exact ih

/-- A resumed run is one from the next slot on. -/
theorem resume_of_loop_suspended (hlength : Code.IsLength length code.size) {m m' : Machine σ}
    {dst : Reg} {query : Word} {cursor : Nat} (answer : Word) (hm : m.cursor % slotWidth = 0)
    (h : loop code length m = (m', .ok (.suspended dst query cursor))) :
    resume code length answer m' = loop code length (m'.take dst answer) := by
  have haligned := aligned_loop code length m hm
  rw [h] at haligned
  exact resume_eq_loop hlength answer (pausesAt_of_loop hm h).1 haligned

/-- The slots that are answered lie behind the cursor, are `in` slots and come in increasing
order. -/
theorem Answered.slots (hlength : Code.IsLength length code.size)
    {start last : Machine σ × Except RunError Halt} {answers : List (Nat × Word)}
    (h : Answered code length start answers last) {m : Machine σ}
    (hm : m.cursor % slotWidth = 0) (hstart : loop code length m = start) :
    (∀ a ∈ answers, ∃ dst, PausesAt code length m.cursor a.1 dst) ∧
      answers.Pairwise (·.1 < ·.1) := by
  induction h generalizing m with
  | ended _ => simp
  | @answer m' dst query cursor answer answers last rest ih =>
      obtain ⟨-, hcursor, pos, hpos, hat⟩ := pausesAt_of_loop hm hstart
      have hresume := resume_of_loop_suspended hlength answer hm hstart
      have haligned := aligned_loop code length m hm
      rw [hstart] at haligned
      obtain ⟨hslots, hsorted⟩ := ih (m := m'.take dst answer) haligned hresume.symm
      have hnext : (m'.take dst answer).cursor = pos + slotWidth := hcursor.trans hpos
      rw [hnext] at hslots
      have hhead : cursor - slotWidth = pos := by omega
      rw [hhead]
      have hstart_le := hat.start_le
      constructor
      · intro a ha
        rcases List.mem_cons.mp ha with rfl | hrest
        · exact ⟨dst, hat⟩
        · obtain ⟨d, hd⟩ := hslots a hrest
          have hle := hd.start_le
          exact ⟨d, { hd with start_le := by omega }⟩
      · refine List.pairwise_cons.mpr ⟨fun a ha => ?_, hsorted⟩
        obtain ⟨d, hd⟩ := hslots a ha
        exact Nat.lt_of_lt_of_le (Nat.lt_add_of_pos_right (by decide)) hd.start_le

/-- A run over code with all the answers of a run written in comes to where that run has ended. -/
theorem loop_of_answered (hlength : Code.IsLength length code.size)
    {start last : Machine σ × Except RunError Halt} {answers : List (Nat × Word)}
    (h : Answered code length start answers last) {m : Machine σ}
    (hm : m.cursor % slotWidth = 0) (hpending : m.pending = none)
    (hstart : loop code length m = start)
    (hother : ∀ q, m.cursor ≤ q → q % slotWidth = 0 → (∀ a ∈ answers, q ≠ a.1) →
      Slot.read code q = Slot.read code' q)
    (hset : ∀ a ∈ answers,
      Slot.read code' a.1 = Slot.ofArgs .set [a.2, (Slot.read code a.1).arg2]) :
    loop code' length m = last := by
  have hslots := h.slots hlength hm hstart
  induction h generalizing m with
  | ended _ =>
      rw [← hstart]
      refine loop_induct code length
        (P := fun (m m' : Machine σ) r => m.cursor % slotWidth = 0 →
          (∀ q, m.cursor ≤ q → q % slotWidth = 0 → Slot.read code q = Slot.read code' q) →
            loop code' length m = (m', r)) ?_ ?_ m hm fun q hle hq => hother q hle hq (by simp)
      · intro m m' r hends hm hsame
        exact (hends.congr fun _ => hsame _ (Nat.le_refl _) hm).loop_eq
      · intro m t m' r hadv _ ih hm hsame
        rw [(hadv.congr (hsame _ (Nat.le_refl _) hm)).loop_eq]
        refine ih (hadv.aligned hm) fun q hle => hsame q ?_
        exact Nat.le_trans (Nat.le_of_lt hadv.cursor_lt) hle
  | @answer m' dst query cursor answer answers last rest ih =>
      obtain ⟨-, hcursor, pos, rfl, hat⟩ := pausesAt_of_loop hm hstart
      have hresume := resume_of_loop_suspended hlength answer hm hstart
      have haligned := aligned_loop code length m hm
      rw [hstart] at haligned
      rw [Nat.add_sub_cancel] at hother hset hslots
      have hafter := (List.pairwise_cons.mp hslots.2).1
      have hnext : (m'.take dst answer).cursor = pos + slotWidth := hcursor
      rw [loop_withAnswer hm hpending hstart ?_ (hset _ List.mem_cons_self)]
      · refine ih (m := m'.take dst answer) haligned rfl hresume.symm ?_
          (fun a ha => hset a (List.mem_cons_of_mem _ ha))
          (rest.slots hlength haligned hresume.symm)
        intro q hle hq hne
        rw [hnext] at hle
        have hstart_le := hat.start_le
        refine hother q (by omega) hq fun a ha => ?_
        rcases List.mem_cons.mp ha with rfl | hrest
        · simp only [slotWidth] at hle
          omega
        · exact hne a hrest
      · -- the slots before the pause have no answer: it is the first, and the others lie behind it
        intro q hlt hle hq
        refine hother q hle hq fun a ha => ?_
        rcases List.mem_cons.mp ha with rfl | hrest
        · exact Nat.ne_of_lt hlt
        · exact Nat.ne_of_lt (Nat.lt_trans hlt (hafter a hrest))

/-- **Pausing is transparent**: when the pauses of a run are answered until it ends, one run of the
code with the answers written in comes to the same machine and the same result, and does not pause.
The host is part of the machine, also one that records its calls. The slots written to are `in`
slots of the program. -/
theorem run_withAnswers {cursor : Nat} {m : Machine σ} {answers : List (Nat × Word)}
    {last : Machine σ × Except RunError Halt} (hlength : Code.IsLength length code.size)
    (hcursor : cursor % slotWidth = 0) (hm : m.isSuspended = false)
    (h : Answered code length (run code length cursor m) answers last) :
    run (withAnswers code answers) length cursor m = last ∧
      (∀ dst query cursor, last.2 ≠ .ok (.suspended dst query cursor)) ∧
      ∀ a ∈ answers, a.1 < length ∧ a.1 % slotWidth = 0 ∧
        (Slot.read code a.1).opcode = Opcode.ask.word ∧
        Slot.read (withAnswers code answers) a.1 =
          Slot.ofArgs .set [a.2, (Slot.read code a.1).arg2] := by
  have hpending : m.pending = none := by simpa [isSuspended] using hm
  have hrun := run_eq_loop hlength hcursor hpending
  obtain ⟨hslots, hsorted⟩ := h.slots hlength (m := { m with cursor := cursor }) hcursor hrun.symm
  have hscript : IsScript code answers := by
    refine ⟨fun a ha => ?_, hsorted⟩
    obtain ⟨dst, hat⟩ := hslots a ha
    have hbelow := hat.below
    have haligned := hat.aligned
    simp only [Code.IsLength, slotWidth] at *
    omega
  refine ⟨?_, h.final, fun a ha => ?_⟩
  · rw [run_eq_loop (by rw [size_withAnswers]; exact hlength) hcursor hpending]
    refine loop_of_answered hlength h (m := { m with cursor := cursor }) hcursor hpending hrun.symm
      ?_ fun a ha => read_withAnswers_of_mem hscript ha
    exact fun q _ hq hne => (read_withAnswers_of_ne hscript hq hne).symm
  · obtain ⟨dst, hat⟩ := hslots a ha
    exact ⟨hat.below, hat.aligned, hat.opcode, read_withAnswers_of_mem hscript ha⟩

/-- Asks twice, the second time with the first answer, and puts both answers out. -/
def askTwice : Array Word :=
  #[24, 0, 1, 0, 24, 1, 2, 0, 14, 1, 0, 0, 14, 2, 0, 0]

/-- `askTwice` run on a fresh machine with the answers seven and nine. -/
def askTwiceEnd : Machine NoHost × Except RunError Halt :=
  resume askTwice 16 9 (resume askTwice 16 7 (run askTwice 16 0 (fresh 4 NoHost.mk)).1).1

theorem answered_askTwice :
    Answered askTwice 16 (run askTwice 16 0 (fresh 4 NoHost.mk)) [(0, 7), (4, 9)] askTwiceEnd := by
  have h₁ : (run askTwice 16 0 (fresh 4 NoHost.mk)).2 = .ok (.suspended 1 0 4) := by cbv
  have h₂ : (resume askTwice 16 7 (run askTwice 16 0 (fresh 4 NoHost.mk)).1).2 =
      .ok (.suspended 2 7 8) := by cbv
  have h₃ : askTwiceEnd.2 = .ok .completed := by cbv
  exact .of_suspended h₁ 7 (.of_suspended h₂ 9 (.of_completed h₃))

theorem run_withAnswers_askTwice :
    Answered askTwice 16 (run askTwice 16 0 (fresh 4 NoHost.mk)) [(0, 7), (4, 9)] askTwiceEnd ∧
      run (withAnswers askTwice [(0, 7), (4, 9)]) 16 0 (fresh 4 NoHost.mk) = askTwiceEnd ∧
      askTwiceEnd.1.output = #[7, 9] :=
  ⟨answered_askTwice, (run_withAnswers (by decide) (by decide) rfl answered_askTwice).1, by cbv⟩

end BytecodeSearch.Machine
