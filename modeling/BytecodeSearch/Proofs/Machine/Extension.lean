import BytecodeSearch.Proofs.Machine.Protocol

/-!
# Code that goes on behind its end

Code extends other code if it has the same slots up to the end of that code, and maybe more behind it.
It runs as the shorter code does until that has come to its end, and goes on from there, wherever the
last jump has led: a pause is the same pause, and a fault the same fault (`loop_extend`). So a call of
the longer code is a call of the shorter one, and behind its end another call from the cursor it has
left (`run_extend`).

Neither does it matter that a host gives answers in between (`finish_extend`). So the longer of two
programs puts out what the shorter one does, and then one word at most for each slot that it has more
(`exists_execute_eq_append`).
-/

set_option autoImplicit false

namespace BytecodeSearch

/-- The first `length'` words of `code'` are at least the first `length` words of `code`, and have the
same slots there. -/
structure Code.Extends (code : Array Word) (length : Nat) (code' : Array Word) (length' : Nat) :
    Prop where
  length_le : length ≤ length'
  slots : ∀ pos < length, pos % slotWidth = 0 → Slot.read code pos = Slot.read code' pos

/-- Code with the same words up to a slot boundary has the same slots there. -/
theorem Code.extends_of_words {code code' : Array Word} {length length' : Nat}
    (hlength : length % slotWidth = 0) (hle : length ≤ length')
    (h : ∀ i < length, code.getD i 0 = code'.getD i 0) : Extends code length code' length' := by
  refine ⟨hle, fun pos hlt hpos => Program.read_congr fun i _ hi => h i ?_⟩
  -- the slot at a boundary below the end lies below the end as a whole
  simp only [slotWidth] at *
  omega

namespace Machine

variable {σ : Type} [Sensors σ] {code code' : Array Word} {length length' : Nat}

/-! ## One run -/

theorem Advance.extend (h : Code.Extends code length code' length') {m t : Machine σ}
    (hm : m.cursor % slotWidth = 0) (hadv : Advance code length m t) :
    Advance code' length' m t := by
  have hslot := h.slots m.cursor hadv.below hm
  have below := Nat.lt_of_lt_of_le hadv.below h.length_le
  cases hadv with
  | next _ slot => exact .next below (by rw [← step_congr hslot, slot])
  | jump _ slot => exact .jump below (by rw [← step_congr hslot, slot])

/-- **A run of extended code**: if the shorter code pauses or has a fault, so does the longer one; if
the shorter code is done, the longer one goes on from where the cursor is, at its end or past it. -/
theorem loop_extend (h : Code.Extends code length code' length') {m : Machine σ}
    (hm : m.cursor % slotWidth = 0) :
    ((loop code length m).2 ≠ .ok .completed → loop code' length' m = loop code length m) ∧
      ((loop code length m).2 = .ok .completed → length ≤ (loop code length m).1.cursor ∧
        loop code' length' m = loop code' length' (loop code length m).1) := by
  -- along the slots of the shorter run: each of them is below the end of the longer code
  refine loop_induct code length
    (P := fun m m' r => m.cursor % slotWidth = 0 →
      (r ≠ .ok .completed → loop code' length' m = (m', r)) ∧
        (r = .ok .completed → length ≤ m'.cursor ∧
          loop code' length' m = loop code' length' m')) ?_ ?_ m hm
  · intro m m' r hends hm
    cases hends with
    | completed past => exact ⟨fun hr => absurd rfl hr, fun _ => ⟨past, rfl⟩⟩
    | fault below slot =>
        rw [step_congr (h.slots m.cursor below hm)] at slot
        have hends' : Ends code' length' m _ _ :=
          .fault (Nat.lt_of_lt_of_le below h.length_le) slot
        exact ⟨fun _ => hends'.loop_eq, by simp⟩
    | pause below slot =>
        rw [step_congr (h.slots m.cursor below hm)] at slot
        have hends' : Ends code' length' m _ _ :=
          .pause (Nat.lt_of_lt_of_le below h.length_le) slot
        exact ⟨fun _ => hends'.loop_eq, by simp⟩
  · intro m t m' r hadv _ ih hm
    rw [(hadv.extend h hm).loop_eq]
    exact ih (hadv.aligned hm)

/-- When the shorter code is done, the machine is at rest at a slot boundary that is not below its end,
and the longer code goes on from there. -/
theorem loop_extend_of_completed (h : Code.Extends code length code' length') {m t : Machine σ}
    (hm : m.cursor % slotWidth = 0) (hrest : m.pending = none)
    (hrun : loop code length m = (t, .ok .completed)) :
    t.pending = none ∧ t.cursor % slotWidth = 0 ∧ length ≤ t.cursor ∧
      loop code' length' m = loop code' length' t := by
  have hgoesOn := (loop_extend h hm).2
  have haligned := aligned_loop code length m hm
  have hwaits : (loop code length m).1.isSuspended = isPause (loop code length m).2 :=
    (isSuspended_loop hm hrest).1
  rw [hrun] at hgoesOn haligned hwaits
  obtain ⟨hpast, hloop⟩ := hgoesOn rfl
  have hstill : t.pending = none := by simpa [isSuspended, isPause] using hwaits
  exact ⟨hstill, haligned, hpast, hloop⟩

/-! ## One call -/

/-- **Calls compose over growing code.** Let the longer code have the words of the shorter one, and
let both lengths be valid. A run of the shorter code that pauses or has a fault is also the run of the
longer one: the same result, and the same machine with its host, which may be one that records its
calls. If the shorter code is done, the machine is at rest at a slot boundary that is not below its end,
maybe far behind it, and a run of the longer code comes to the same as running the shorter one and then
the longer one from there. -/
theorem run_extend {cursor : Nat} {m : Machine σ} (hlength : Code.IsLength length code.size)
    (hlength' : Code.IsLength length' code'.size) (hle : length ≤ length')
    (hwords : ∀ i < length, code.getD i 0 = code'.getD i 0) (hcursor : cursor % slotWidth = 0)
    (hm : m.isSuspended = false) :
    (∀ t r, run code length cursor m = (t, r) → r ≠ .ok .completed →
      run code' length' cursor m = (t, r)) ∧
      ∀ t, run code length cursor m = (t, .ok .completed) →
        t.isSuspended = false ∧ t.cursor % slotWidth = 0 ∧ length ≤ t.cursor ∧
          run code' length' cursor m = run code' length' t.cursor t := by
  have hrest : m.pending = none := by simpa [isSuspended] using hm
  have hextends := Code.extends_of_words hlength.1 hle hwords
  rw [run_eq_loop hlength hcursor hrest, run_eq_loop hlength' hcursor hrest]
  constructor
  · intro t r hrun hr
    have hsame := (loop_extend hextends (m := { m with cursor := cursor }) hcursor).1
    rw [hrun] at hsame
    exact hsame hr
  · intro t hrun
    obtain ⟨hstill, haligned, hpast, hloop⟩ :=
      loop_extend_of_completed hextends (m := { m with cursor := cursor }) hcursor hrest hrun
    -- a machine at rest at a slot boundary is not refused, and runs from where it is
    refine ⟨by simp [isSuspended, hstill], haligned, hpast, ?_⟩
    rw [hloop, run_eq_loop hlength' haligned hstill]

/-- Jumps over one slot, which is not there. -/
def jumpOut : Array Word := #[8, 8, 0, 0]

/-- `jumpOut` with two slots behind it: it jumps over the first and asks in the second. -/
def jumpThenAsk : Array Word := #[8, 8, 0, 0, 14, 0, 0, 0, 24, 0, 1, 0]

/-- `jumpThenAsk` with a slot that puts the answer out. -/
def jumpThenTell : Array Word := #[8, 8, 0, 0, 14, 0, 0, 0, 24, 0, 1, 0, 14, 1, 0, 0]

/-- The first code is done with the cursor past its end, and there the second goes on. It pauses in its
last slot, and so does the third. -/
theorem run_extend_jumpOut :
    (run jumpOut 4 0 (fresh 4 NoHost.mk)).2 = .ok .completed ∧
      (run jumpOut 4 0 (fresh 4 NoHost.mk)).1.cursor = 8 ∧
      run jumpThenAsk 12 0 (fresh 4 NoHost.mk) =
        run jumpThenAsk 12 8 (run jumpOut 4 0 (fresh 4 NoHost.mk)).1 ∧
      (run jumpThenAsk 12 0 (fresh 4 NoHost.mk)).2 = .ok (.suspended 1 0 12) ∧
      run jumpThenTell 16 0 (fresh 4 NoHost.mk) = run jumpThenAsk 12 0 (fresh 4 NoHost.mk) := by
  have hlength : Code.IsLength 4 jumpOut.size := by decide
  have hlength' : Code.IsLength 12 jumpThenAsk.size := by decide
  have hlength'' : Code.IsLength 16 jumpThenTell.size := by decide
  have hdone : (run jumpOut 4 0 (fresh 4 NoHost.mk)).2 = .ok .completed := by cbv
  have hcursor : (run jumpOut 4 0 (fresh 4 NoHost.mk)).1.cursor = 8 := by cbv
  have hpause : (run jumpThenAsk 12 0 (fresh 4 NoHost.mk)).2 = .ok (.suspended 1 0 12) := by cbv
  have hrun : run jumpThenAsk 12 0 (fresh 4 NoHost.mk) =
      ((run jumpThenAsk 12 0 (fresh 4 NoHost.mk)).1, .ok (.suspended 1 0 12)) := Prod.ext rfl hpause
  have hgrown := run_extend (m := fresh 4 NoHost.mk) hlength hlength' (by decide) (by decide)
    (Nat.zero_mod slotWidth) rfl
  have hgrown' := run_extend (m := fresh 4 NoHost.mk) hlength' hlength'' (by decide) (by decide)
    (Nat.zero_mod slotWidth) rfl
  refine ⟨hdone, hcursor, ?_, hpause, (hgrown'.1 _ _ hrun (by simp)).trans hrun.symm⟩
  obtain ⟨-, -, -, hgoesOn⟩ := hgrown.2 _ (Prod.ext rfl hdone)
  rwa [hcursor] at hgoesOn

/-! ## Runs with answers -/

theorem finish_of_loop_suspended (hlength : Code.IsLength length code.size) {m m' : Machine σ}
    (hm : m.cursor % slotWidth = 0) {dst : Reg} {query : Word} {cursor : Nat}
    (h : loop code length m = (m', .ok (.suspended dst query cursor))) (answer : Word) :
    finish code length answer (loop code length m) =
      finish code length answer (loop code length (m'.take dst answer)) := by
  have haligned := aligned_loop code length m hm
  rw [h] at haligned
  rw [h, finish_of_pause rfl,
    resume_eq_loop hlength answer (pending_of_loop_suspended h).1 haligned]

/-- **Extended code with answers**: behind the end of the shorter code the longer one goes on from the
machine that the shorter one has left. -/
theorem finish_extend (h : Code.Extends code length code' length')
    (hlength : Code.IsLength length code.size) (hlength' : Code.IsLength length' code'.size)
    {answer : Word} {m t : Machine σ} (hm : m.cursor % slotWidth = 0) (hrest : m.pending = none)
    (hend : finish code length answer (loop code length m) = (t, .ok ())) :
    t.pending = none ∧ t.cursor % slotWidth = 0 ∧ length ≤ t.cursor ∧
      finish code' length' answer (loop code' length' m) =
        finish code' length' answer (loop code' length' t) := by
  match hcall : loop code length m with
  | (m', .error e) =>
      rw [hcall, finish] at hend
      cases hend
  | (m', .ok .completed) =>
      rw [hcall] at hend
      obtain ⟨rfl, -⟩ := Prod.mk.inj hend
      obtain ⟨hstill, haligned, hpast, hloop⟩ := loop_extend_of_completed h hm hrest hcall
      exact ⟨hstill, haligned, hpast, by rw [hloop]⟩
  | (m', .ok (.suspended dst query cursor)) =>
      have hfurther := cursor_of_loop_suspended hcall
      have hsame := (loop_extend h hm).1
      have haligned := aligned_loop code length m hm
      rw [hcall] at hsame haligned
      have hcall' := hsame (by simp)
      rw [finish_of_loop_suspended hlength hm hcall] at hend
      rw [finish_of_loop_suspended hlength' hm hcall']
      exact finish_extend h hlength hlength' (m := m'.take dst answer) haligned rfl hend
  termination_by length - m.cursor
  decreasing_by
    show length - m'.cursor < length - m.cursor
    omega

/-- Extended code puts out what the shorter code does, and then a word at most for each new slot. -/
theorem exists_runToEnd_eq_append (h : Code.Extends code length code' length')
    (hcode : Code.IsValid code length) (hcode' : Code.IsValid code' length') (answer : Word)
    {m : Machine σ} (hm : m.pending = none) :
    ∃ t u more, runToEnd code length answer m = (t, .ok ()) ∧
      runToEnd code' length' answer m = (u, .ok ()) ∧ u.output = t.output ++ more ∧
        more.size ≤ (length' - length) / slotWidth := by
  obtain ⟨t, ht⟩ := exists_runToEnd_eq_ok hcode answer hm
  obtain ⟨u, hu⟩ := exists_runToEnd_eq_ok hcode' answer hm
  have hzero : 0 % slotWidth = 0 := Nat.zero_mod slotWidth
  have hend := ht
  rw [runToEnd_eq_finish, run_eq_loop hcode.isLength hzero hm] at hend
  obtain ⟨hrest, haligned, hpast, hgoesOn⟩ := finish_extend h hcode.isLength hcode'.isLength
    (m := { m with cursor := 0 }) hzero hm hend
  -- behind the end of the shorter code the longer one runs from the cursor it is at
  have hrun : run code' length' t.cursor t = loop code' length' t :=
    run_eq_loop hcode'.isLength haligned hrest
  obtain ⟨more, hmore, hsize⟩ := finish_run_output code' length' t.cursor answer t
  have hu' := hu
  rw [runToEnd_eq_finish, run_eq_loop hcode'.isLength hzero hm, hgoesOn, ← hrun] at hu'
  refine ⟨t, u, more, ht, hu, by rw [← hmore, hu'], ?_⟩
  have hfirst : firstSlot t.cursor t = t.cursor := by rw [firstSlot, hrest]
  calc more.size
      ≤ (length' - firstSlot t.cursor t) / slotWidth := hsize
    _ = (length' - t.cursor) / slotWidth := by rw [hfirst]
    _ ≤ (length' - length) / slotWidth := Nat.div_le_div_right (Nat.sub_le_sub_left hpast _)

end Machine

namespace Program

/-- **The output of an extended program** is the output of the program, followed by one word at most
for each slot that the extended one has more. -/
theorem exists_execute_eq_append {p q : Program}
    (h : Code.Extends p.code p.length q.code q.length) (hp : Code.IsValid p.code p.length)
    (hq : Code.IsValid q.code q.length) (input : Array Word) (memorySize : Nat) :
    ∃ out more, p.execute input memorySize = .ok out ∧
      q.execute input memorySize = .ok (out ++ more) ∧
        more.size ≤ (q.length - p.length) / slotWidth := by
  obtain ⟨t, u, more, ht, hu, hmore, hsize⟩ := Machine.exists_runToEnd_eq_append h hp hq
    scoringAnswer (m := (Machine.fresh memorySize NoHost.mk).load input) rfl
  refine ⟨t.output, more, ?_, ?_, hsize⟩
  · simp only [execute, ht]
  · simp only [execute, hu, hmore]

end Program

end BytecodeSearch
