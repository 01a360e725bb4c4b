import BytecodeSearch.Proofs.Machine.Faults

/-!
# Forward progress

A run never goes back. `visited` lists the offsets of the slots that a run dispatches, in order, and
`chainVisited` those of a chain of calls, the first `run` and every `resume` behind it. On any code,
also code that the check refuses, these offsets increase from the first call to the last, every one
of them has its whole slot inside the buffer, and nothing else of the buffer is looked at
(`ForwardOnly`). So there are only so many of them, a chain pauses only so often, and a host that
resumes until a run does not pause any more comes to an end (`forwardOnly_chain`).

The offsets are collected along the runs of the machine: `visited_of_advance` and `visited_of_ends`
are what ties them to it.
-/

set_option autoImplicit false

namespace BytecodeSearch.Machine

variable {σ : Type} {code code' : Array Word} {length : Nat}

/-! ## Going forward -/

/-- The machine `m` has gone on to `m'` by way of some slots from `first` on: they lie one behind
the other and inside the program, `m'` waits behind all of them if it waits, and no slot has put out
more than one word. -/
structure Forward (code : Array Word) (length first : Nat) (slots : List Nat)
    (m m' : Machine σ) : Prop where
  /-- Every slot is further on than the ones before. -/
  increasing : slots.Pairwise (· < ·)
  /-- They are whole slots of the program, and the program is in the buffer. -/
  inside : ∀ pos ∈ slots,
    pos % slotWidth = 0 ∧ first ≤ pos ∧ pos + slotWidth ≤ length ∧ length ≤ code.size
  /-- A machine that waits goes on from behind them. -/
  behind : m'.isSuspended = true → first ≤ m'.cursor ∧ ∀ pos ∈ slots, pos < m'.cursor
  /-- Each of them has put out one word at most. -/
  output : ∃ more, m'.output = m.output ++ more ∧ more.size ≤ slots.length

/-- Going on by way of no slot. -/
theorem Forward.stay {first : Nat} {m : Machine σ}
    (hm : m.isSuspended = true → first ≤ m.cursor) : Forward code length first [] m m where
  increasing := .nil
  inside := by simp
  behind := fun hwaits => ⟨hm hwaits, by simp⟩
  output := ⟨#[], (Array.append_empty ..).symm, Nat.le_refl 0⟩

/-- Going on twice, from `next` on the second time. -/
theorem Forward.append {first next : Nat} {slots more : List Nat} {m t u : Machine σ}
    (h : Forward code length first slots m t) (hnext : first ≤ next)
    (hbehind : ∀ pos ∈ slots, pos < next) (h' : Forward code length next more t u) :
    Forward code length first (slots ++ more) m u := by
  constructor
  · refine List.pairwise_append.mpr ⟨h.increasing, h'.increasing, fun a ha b hb => ?_⟩
    exact Nat.lt_of_lt_of_le (hbehind a ha) (h'.inside b hb).2.1
  · intro pos hpos
    rcases List.mem_append.mp hpos with hmem | hmem
    · exact h.inside pos hmem
    · obtain ⟨haligned, hle, hrest⟩ := h'.inside pos hmem
      exact ⟨haligned, Nat.le_trans hnext hle, hrest⟩
  · intro hwaits
    obtain ⟨hle, hlt⟩ := h'.behind hwaits
    refine ⟨Nat.le_trans hnext hle, fun pos hpos => ?_⟩
    rcases List.mem_append.mp hpos with hmem | hmem
    · exact Nat.lt_of_lt_of_le (hbehind pos hmem) hle
    · exact hlt pos hmem
  · obtain ⟨out, hout, hsize⟩ := h.output
    obtain ⟨out', hout', hsize'⟩ := h'.output
    refine ⟨out ++ out', by rw [hout', hout, Array.append_assoc], ?_⟩
    rw [Array.size_append, List.length_append]
    omega

/-- Slots that lie one behind the other are at most so many. -/
theorem length_le_of_increasing {first : Nat} {slots : List Nat} (hslots : slots.Pairwise (· < ·))
    (hinside : ∀ pos ∈ slots, pos % slotWidth = 0 ∧ first ≤ pos ∧ pos + slotWidth ≤ length) :
    slotWidth * slots.length ≤ length - first := by
  induction slots generalizing first with
  | nil => exact Nat.zero_le _
  | cons pos rest ih =>
      obtain ⟨hlt, hrest⟩ := List.pairwise_cons.mp hslots
      obtain ⟨haligned, hfirst, hfits⟩ := hinside pos List.mem_cons_self
      -- the slots behind `pos` are at least a whole slot further on
      have hnext : ∀ q ∈ rest, q % slotWidth = 0 ∧ pos + slotWidth ≤ q ∧ q + slotWidth ≤ length := by
        intro q hq
        obtain ⟨hq', -, hfits'⟩ := hinside q (List.mem_cons_of_mem _ hq)
        have hgreater := hlt q hq
        simp only [slotWidth] at *
        omega
      have hle := ih hrest hnext
      rw [List.length_cons]
      simp only [slotWidth] at *
      omega

theorem Forward.length_le {first : Nat} {slots : List Nat} {m m' : Machine σ}
    (h : Forward code length first slots m m') : slots.length ≤ (length - first) / slotWidth := by
  have hle := length_le_of_increasing h.increasing fun pos hpos =>
    ⟨(h.inside pos hpos).1, (h.inside pos hpos).2.1, (h.inside pos hpos).2.2.1⟩
  exact (Nat.le_div_iff_mul_le (by decide)).mpr (by rwa [Nat.mul_comm])

/-! ## The slots of a run -/

variable [Sensors σ]

/-- The offsets of the slots that a run from `m` dispatches, in order. A slot that is at fault or
pauses is the last one. -/
def visited (code : Array Word) (length : Nat) (m : Machine σ) : List Nat :=
  let pos := m.cursor
  if pos < length then
    match step code m with
    | (_, .error _) => [pos]
    | (m, .ok .next) => pos :: visited code length { m with cursor := pos + slotWidth }
    | (m, .ok (.jump target)) => pos :: visited code length { m with cursor := target.word.toNat }
    | (_, .ok (.pause _ _)) => [pos]
  else []
  termination_by length - m.cursor
  decreasing_by
    · simp only [slotWidth]
      omega
    · have := target.forward
      omega

theorem visited_of_advance {m t : Machine σ} (h : Advance code length m t) :
    visited code length m = m.cursor :: visited code length t := by
  cases h with
  | next below slot =>
      rw [visited]
      simp only [if_pos below, slot]
  | jump below slot =>
      rw [visited]
      simp only [if_pos below, slot]

theorem visited_of_ends {m m' : Machine σ} {r : Except RunError Halt}
    (h : Ends code length m m' r) :
    visited code length m = if m.cursor < length then [m.cursor] else [] := by
  cases h with
  | completed past =>
      rw [visited]
      simp only [if_neg (Nat.not_lt.mpr past)]
  | fault below slot =>
      rw [visited]
      simp only [if_pos below, slot]
  | pause below slot =>
      rw [visited]
      simp only [if_pos below, slot]

theorem cursor_mem_visited {m : Machine σ} (below : m.cursor < length) :
    m.cursor ∈ visited code length m := by
  rw [visited]
  simp only [if_pos below]
  split <;> exact List.mem_cons_self

/-- The slots a run dispatches are those its way comes to. -/
theorem mem_visited_iff {m : Machine σ} {pos : Nat} :
    pos ∈ visited code length m ↔
      ∃ t, Reaches code length m t ∧ t.cursor < length ∧ t.cursor = pos := by
  constructor
  · refine loop_induct code length
      (P := fun m _ _ => pos ∈ visited code length m →
        ∃ t, Reaches code length m t ∧ t.cursor < length ∧ t.cursor = pos) ?_ ?_ m
    · intro m m' r hends hpos
      rw [visited_of_ends hends] at hpos
      split at hpos
      · rename_i below
        exact ⟨m, .refl, below, (List.mem_singleton.mp hpos).symm⟩
      · simp at hpos
    · intro m t m' r hadv _ ih hpos
      rw [visited_of_advance hadv] at hpos
      rcases List.mem_cons.mp hpos with rfl | hrest
      · exact ⟨m, .refl, hadv.below, rfl⟩
      · obtain ⟨u, hreaches, below, hu⟩ := ih hrest
        exact ⟨u, .head hadv hreaches, below, hu⟩
  · rintro ⟨t, hreaches, below, rfl⟩
    induction hreaches using Relation.ReflTransGen.head_induction_on with
    | refl => exact cursor_mem_visited below
    | head hadv _ ih =>
        rw [visited_of_advance hadv]
        exact List.mem_cons_of_mem _ ih

/-- A run looks at the slots it dispatches only. -/
theorem loop_congr_visited {m : Machine σ}
    (h : ∀ pos ∈ visited code length m, Slot.read code pos = Slot.read code' pos) :
    loop code length m = loop code' length m := by
  refine loop_induct code length
    (P := fun m m' r => (∀ pos ∈ visited code length m,
      Slot.read code pos = Slot.read code' pos) → (m', r) = loop code' length m) ?_ ?_ m h
  · intro m m' r hends h
    rw [visited_of_ends hends] at h
    exact (hends.congr fun below => h m.cursor (by simp [below])).loop_eq.symm
  · intro m t m' r hadv _ ih h
    rw [visited_of_advance hadv] at h
    have hslot := h m.cursor List.mem_cons_self
    rw [ih fun pos hpos => h pos (List.mem_cons_of_mem _ hpos), (hadv.congr hslot).loop_eq]

/-! ## Runs go forward -/

/-- No instruction puts out more than one word. -/
theorem exec_output {pos : Nat} (i : Instr pos) (m : Machine σ) :
    ∃ more, (i.exec m).1.output = m.output ++ more ∧ more.size ≤ 1 := by
  cases i with
  | echo src => exact ⟨#[m.get src], rfl, Nat.le_refl 1⟩
  | sense hook a b dst =>
      refine ⟨#[], ?_, Nat.zero_le 1⟩
      simp only [Instr.exec, Array.append_empty]
      split <;> rfl
  | set | move | inc | dec | binary | read | write | jump | jumpIf | jumpTest | ask =>
      exact ⟨#[], (Array.append_empty ..).symm, Nat.zero_le 1⟩

/-- No slot puts out more than one word. -/
theorem step_output (code : Array Word) (m : Machine σ) :
    ∃ more, (step code m).1.output = m.output ++ more ∧ more.size ≤ 1 := by
  have hnone : ∃ more : Array Word, m.output = m.output ++ more ∧ more.size ≤ 1 :=
    ⟨#[], (Array.append_empty ..).symm, Nat.zero_le 1⟩
  simp only [step]
  split
  · exact hnone
  · split
    · exact hnone
    · exact exec_output _ _

/-- The slot at the cursor of a machine that goes on from there or does not. -/
theorem forward_slot (hlength : Code.IsLength length code.size) {m t : Machine σ}
    (hm : m.cursor % slotWidth = 0) (below : m.cursor < length)
    (houtput : t.output = (step code m).1.output)
    (hwaits : t.isSuspended = true → m.cursor < t.cursor) :
    Forward code length m.cursor [m.cursor] m t := by
  refine ⟨List.pairwise_singleton _ _, ?_, ?_, ?_⟩
  · intro pos hpos
    obtain rfl := List.mem_singleton.mp hpos
    have hfits : m.cursor + slotWidth ≤ length := by
      have hwhole := hlength.1
      simp only [slotWidth] at *
      omega
    exact ⟨hm, Nat.le_refl _, hfits, hlength.2⟩
  · intro h
    have hlt := hwaits h
    exact ⟨Nat.le_of_lt hlt, by simpa using hlt⟩
  · rw [houtput]
    exact step_output code m

/-- A run goes forward. -/
theorem forward_loop (hlength : Code.IsLength length code.size) {m : Machine σ}
    (hm : m.cursor % slotWidth = 0) (hrest : m.pending = none) :
    Forward code length m.cursor (visited code length m) m (loop code length m).1 := by
  refine loop_induct code length
    (P := fun m m' _ => m.cursor % slotWidth = 0 → m.pending = none →
      Forward code length m.cursor (visited code length m) m m') ?_ ?_ m hm hrest
  · intro m m' r hends hm hrest
    have hpending := (step_frame code m).2.1
    rw [visited_of_ends hends]
    cases hends with
    | completed past =>
        rw [if_neg (Nat.not_lt.mpr past)]
        exact .stay fun hwaits => by simp [isSuspended, hrest] at hwaits
    | fault below slot =>
        rw [if_pos below]
        have hstill : m'.pending = none := by rw [← hrest, ← hpending, slot]
        exact forward_slot hlength hm below (by rw [slot]) fun hwaits => by
          simp [isSuspended, hstill] at hwaits
    | pause below slot =>
        rw [if_pos below]
        exact forward_slot hlength hm below (by rw [slot]) fun _ =>
          Nat.lt_add_of_pos_right (by decide)
  · intro m t m' r hadv _ ih hm hrest
    have hrest' := hadv.pending.trans hrest
    have hslot : Forward code length m.cursor [m.cursor] m t := by
      refine forward_slot hlength hm hadv.below ?_ fun hwaits => by
        simp [isSuspended, hrest'] at hwaits
      cases hadv with
      | next _ slot => rw [slot]
      | jump _ slot => rw [slot]
    rw [visited_of_advance hadv]
    exact hslot.append (Nat.le_of_lt hadv.cursor_lt)
      (by simpa using hadv.cursor_lt) (ih (hadv.aligned hm) hrest')

/-! ## Calls -/

/-- The offsets of the slots that a start at `cursor` dispatches. A start that is refused dispatches
none. -/
def startVisited (code : Array Word) (length cursor : Nat) (m : Machine σ) : List Nat :=
  if Code.IsLength length code.size ∧ cursor % slotWidth = 0 then
    visited code length { m with cursor := cursor }
  else []

theorem start_eq_of_refused {cursor : Nat}
    (h : ¬ (Code.IsLength length code.size ∧ cursor % slotWidth = 0)) (m : Machine σ) :
    start code length cursor m = (m, .error (if Code.IsLength length code.size then
      .misalignedCursor cursor else .code (.badLength length code.size))) := by
  unfold start Code.checkLength
  by_cases hlength : Code.IsLength length code.size
  · have hcursor : ¬ cursor % slotWidth = 0 := fun hcursor => h ⟨hlength, hcursor⟩
    simp only [if_pos hlength, if_neg hcursor]
  · simp only [if_neg hlength]

theorem forward_start (code : Array Word) (length cursor : Nat) {m : Machine σ}
    (hm : m.pending = none) :
    Forward code length cursor (startVisited code length cursor m) m
      (start code length cursor m).1 := by
  unfold startVisited
  by_cases h : Code.IsLength length code.size ∧ cursor % slotWidth = 0
  · rw [if_pos h, start_eq_loop h.1 h.2]
    have hloop := forward_loop h.1 (m := { m with cursor := cursor }) h.2 hm
    exact ⟨hloop.increasing, hloop.inside, hloop.behind, hloop.output⟩
  · rw [if_neg h, start_eq_of_refused h]
    exact .stay fun hwaits => by simp [isSuspended, hm] at hwaits

/-- A start looks at the slots it dispatches only, and at the size of the buffer. -/
theorem start_congr_visited (hsize : code'.size = code.size) {cursor : Nat} {m : Machine σ}
    (h : ∀ pos ∈ startVisited code length cursor m, Slot.read code pos = Slot.read code' pos) :
    start code' length cursor m = start code length cursor m := by
  unfold startVisited at h
  by_cases hstart : Code.IsLength length code.size ∧ cursor % slotWidth = 0
  · rw [if_pos hstart] at h
    rw [start_eq_loop hstart.1 hstart.2, start_eq_loop (by rw [hsize]; exact hstart.1) hstart.2]
    exact (loop_congr_visited h).symm
  · rw [start_eq_of_refused hstart, start_eq_of_refused (by rwa [hsize]), hsize]

/-- Whether a call has come to a pause. -/
def isPause : Except RunError Halt → Bool
  | .ok (.suspended _ _ _) => true
  | _ => false

/-- A start that pauses has dispatched a slot: the one it pauses at. -/
theorem startVisited_pos {cursor : Nat} {m : Machine σ}
    (h : isPause (start code length cursor m).2 = true) :
    0 < (startVisited code length cursor m).length := by
  unfold startVisited
  by_cases hstart : Code.IsLength length code.size ∧ cursor % slotWidth = 0
  · rw [start_eq_loop hstart.1 hstart.2] at h
    rw [if_pos hstart]
    have below : cursor < length := by
      -- a run that starts past the end is completed at once
      by_contra hpast
      have hends : Ends code length { m with cursor := cursor } _ _ :=
        .completed (Nat.not_lt.mp hpast)
      rw [hends.loop_eq] at h
      simp [isPause] at h
    exact List.length_pos_of_mem (cursor_mem_visited (m := { m with cursor := cursor }) below)
  · rw [start_eq_of_refused hstart] at h
    simp [isPause] at h

/-- The offsets of the slots that `run` dispatches. -/
def runVisited (code : Array Word) (length cursor : Nat) (m : Machine σ) : List Nat :=
  match m.pending with
  | none => startVisited code length cursor m
  | some _ => []

/-- The offsets of the slots that `resume` dispatches. -/
def resumeVisited (code : Array Word) (length : Nat) (answer : Word) (m : Machine σ) : List Nat :=
  match m.pending with
  | none => []
  | some dst => startVisited code length m.cursor (m.take dst answer)

/-- Where a chain that is to start at `cursor` goes on from: a machine that waits refuses to run, and
is resumed where it waits. -/
def firstSlot (cursor : Nat) (m : Machine σ) : Nat :=
  match m.pending with
  | none => cursor
  | some _ => m.cursor

theorem forward_run (code : Array Word) (length cursor : Nat) (m : Machine σ) :
    Forward code length (firstSlot cursor m) (runVisited code length cursor m) m
      (run code length cursor m).1 := by
  unfold firstSlot runVisited
  cases hm : m.pending with
  | none =>
      rw [run_of_rest hm]
      exact forward_start code length cursor hm
  | some dst =>
      rw [run_of_pending hm]
      exact .stay fun _ => Nat.le_refl _

/-- A machine that has gone forward and is resumed goes forward. -/
theorem Forward.resume {first : Nat} {slots : List Nat} {m t : Machine σ}
    (h : Forward code length first slots m t) (answer : Word) :
    Forward code length first (slots ++ resumeVisited code length answer t) m
      (Machine.resume code length answer t).1 := by
  unfold resumeVisited
  cases ht : t.pending with
  | none =>
      rw [resume_of_rest ht, List.append_nil]
      exact h
  | some dst =>
      rw [resume_of_pending ht]
      obtain ⟨hfirst, hbehind⟩ := h.behind (by simp [isSuspended, ht])
      have hstart := forward_start code length t.cursor (m := t.take dst answer) rfl
      exact h.append hfirst hbehind
        ⟨hstart.increasing, hstart.inside, hstart.behind, hstart.output⟩

theorem run_congr_visited (hsize : code'.size = code.size) {cursor : Nat} {m : Machine σ}
    (h : ∀ pos ∈ runVisited code length cursor m, Slot.read code pos = Slot.read code' pos) :
    run code' length cursor m = run code length cursor m := by
  cases hm : m.pending with
  | none =>
      simp only [runVisited, hm] at h
      rw [run_of_rest hm, run_of_rest hm, start_congr_visited hsize h]
  | some dst => rw [run_of_pending hm, run_of_pending hm]

theorem resume_congr_visited (hsize : code'.size = code.size) {answer : Word} {m : Machine σ}
    (h : ∀ pos ∈ resumeVisited code length answer m, Slot.read code pos = Slot.read code' pos) :
    resume code' length answer m = resume code length answer m := by
  cases hm : m.pending with
  | none => rw [resume_of_rest hm, resume_of_rest hm]
  | some dst =>
      simp only [resumeVisited, hm] at h
      rw [resume_of_pending hm, resume_of_pending hm, start_congr_visited hsize h]

theorem runVisited_pos {cursor : Nat} {m : Machine σ}
    (h : isPause (run code length cursor m).2 = true) :
    0 < (runVisited code length cursor m).length := by
  unfold runVisited
  cases hm : m.pending with
  | none =>
      rw [run_of_rest hm] at h
      exact startVisited_pos h
  | some dst =>
      rw [run_of_pending hm] at h
      simp [isPause] at h

theorem resumeVisited_pos {answer : Word} {m : Machine σ}
    (h : isPause (resume code length answer m).2 = true) :
    0 < (resumeVisited code length answer m).length := by
  unfold resumeVisited
  cases hm : m.pending with
  | none =>
      rw [resume_of_rest hm] at h
      simp [isPause] at h
  | some dst =>
      rw [resume_of_pending hm] at h
      exact startVisited_pos h

/-! ## Chains of calls -/

variable (code) (length) (cursor : Nat) (answers : Nat → Word) (m : Machine σ)

/-- The offsets of the slots that the calls of a chain up to number `n` dispatch, in order. -/
def chainVisited : Nat → List Nat
  | 0 => runVisited code length cursor m
  | n + 1 =>
      chainVisited n ++ resumeVisited code length (answers n)
        (chain code length cursor answers m n).1

/-- The number of pauses of a chain up to call number `n`. -/
def pauses (n : Nat) : Nat :=
  (List.range (n + 1)).countP fun k => isPause (chain code length cursor answers m k).2

theorem forward_chain (n : Nat) :
    Forward code length (firstSlot cursor m) (chainVisited code length cursor answers m n) m
      (chain code length cursor answers m n).1 := by
  induction n with
  | zero => exact forward_run code length cursor m
  | succ n ih => exact ih.resume (answers n)

theorem chain_congr_visited (hsize : code'.size = code.size) (n : Nat)
    (h : ∀ pos ∈ chainVisited code length cursor answers m n,
      Slot.read code pos = Slot.read code' pos) :
    chain code' length cursor answers m n = chain code length cursor answers m n := by
  induction n with
  | zero => exact run_congr_visited hsize h
  | succ n ih =>
      rw [chain, chain, ih fun pos hpos => h pos (List.mem_append_left _ hpos)]
      exact resume_congr_visited hsize fun pos hpos => h pos (List.mem_append_right _ hpos)

theorem pauses_le (n : Nat) : pauses code length cursor answers m n ≤
    (chainVisited code length cursor answers m n).length := by
  induction n with
  | zero =>
      have hcount : pauses code length cursor answers m 0 =
          if isPause (run code length cursor m).2 then 1 else 0 :=
        List.countP_singleton
      rw [hcount]
      split
      · rename_i hpause
        exact runVisited_pos hpause
      · exact Nat.zero_le _
  | succ n ih =>
      have hcount : pauses code length cursor answers m (n + 1) =
          pauses code length cursor answers m n +
            if isPause (chain code length cursor answers m (n + 1)).2 then 1 else 0 := by
        rw [pauses, List.range_succ, List.countP_append, List.countP_singleton]
        rfl
      rw [hcount, chainVisited, List.length_append]
      refine Nat.add_le_add ih ?_
      split
      · rename_i hpause
        exact resumeVisited_pos hpause
      · exact Nat.zero_le _

/-- A chain comes to a call that does not pause, after so many pauses at most. -/
theorem exists_isPause_eq_false :
    ∃ k ≤ (length - firstSlot cursor m) / slotWidth,
      (∀ j < k, isPause (chain code length cursor answers m j).2 = true) ∧
        isPause (chain code length cursor answers m k).2 = false := by
  generalize hbound : (length - firstSlot cursor m) / slotWidth = bound
  have hends : ∃ k, k ≤ bound ∧ isPause (chain code length cursor answers m k).2 = false := by
    by_contra hnone
    -- otherwise all of these calls pause, and there are more of them than slots
    have hall : ∀ k ∈ List.range (bound + 1),
        isPause (chain code length cursor answers m k).2 = true := by
      intro k hk
      by_contra hpause
      exact hnone ⟨k, Nat.lt_succ_iff.mp (List.mem_range.mp hk), Bool.eq_false_iff.mpr hpause⟩
    have hcount : pauses code length cursor answers m bound = bound + 1 := by
      rw [pauses, List.countP_eq_length.mpr hall, List.length_range]
    have hpauses := pauses_le code length cursor answers m bound
    have hslots := (forward_chain code length cursor answers m bound).length_le
    omega
  classical
  obtain ⟨hle, hpause⟩ := Nat.find_spec hends
  refine ⟨Nat.find hends, hle, fun j hj => ?_, hpause⟩
  by_contra hj'
  exact Nat.find_min hends hj ⟨by omega, Bool.eq_false_iff.mpr hj'⟩

variable {code length m}

/-- What a call comes to if every pause from there on gets the same answer. -/
def finish (code : Array Word) (length : Nat) (answer : Word) :
    Machine σ × Except RunError Halt → Machine σ × Except RunError Unit
  | (m, .error e) => (m, .error e)
  | (m, .ok .completed) => (m, .ok ())
  | (m, .ok (.suspended _ _ _)) => resumeAll code length answer m

theorem resumeAll_eq_finish (answer : Word) (m : Machine σ) :
    resumeAll code length answer m = finish code length answer (resume code length answer m) := by
  rw [resumeAll.eq_def]
  split
  · rename_i hcall
    rw [hcall, finish]
  · rename_i hcall
    rw [hcall, finish]
  · rename_i hcall
    rw [hcall, finish]

theorem runToEnd_eq_finish (answer : Word) (m : Machine σ) :
    runToEnd code length answer m = finish code length answer (run code length 0 m) := by
  unfold runToEnd
  split
  · rename_i hcall
    rw [hcall, finish]
  · rename_i hcall
    rw [hcall, finish]
  · rename_i hcall
    rw [hcall, finish]

theorem finish_of_pause {answer : Word} {call : Machine σ × Except RunError Halt}
    (h : isPause call.2 = true) : finish code length answer call =
      finish code length answer (resume code length answer call.1) := by
  rw [← resumeAll_eq_finish]
  match call, h with
  | (m, .ok (.suspended _ _ _)), _ => rfl

theorem finish_of_end {answer : Word} {call : Machine σ × Except RunError Halt}
    (h : isPause call.2 = false) :
    finish code length answer call = (call.1, call.2.map fun _ => ()) := by
  match call, h with
  | (m, .error _), _ => rfl
  | (m, .ok .completed), _ => rfl

/-- Giving one answer until there is no pause any more is going along a chain. -/
theorem finish_chain {answer : Word} {k : Nat}
    (hpauses : ∀ j < k, isPause (chain code length cursor (fun _ => answer) m j).2 = true)
    (hend : isPause (chain code length cursor (fun _ => answer) m k).2 = false) (j : Nat)
    (hj : j ≤ k) :
    finish code length answer (chain code length cursor (fun _ => answer) m j) =
      ((chain code length cursor (fun _ => answer) m k).1,
        (chain code length cursor (fun _ => answer) m k).2.map fun _ => ()) := by
  rcases Nat.eq_or_lt_of_le hj with rfl | hlt
  · exact finish_of_end hend
  · rw [finish_of_pause (hpauses j hlt)]
    exact finish_chain hpauses hend (j + 1) hlt
  termination_by k - j

/-- A run to the end is a chain with one answer, up to the call that does not pause. -/
theorem runToEnd_eq_chain {answer : Word} {k : Nat}
    (hpauses : ∀ j < k, isPause (chain code length 0 (fun _ => answer) m j).2 = true)
    (hend : isPause (chain code length 0 (fun _ => answer) m k).2 = false) :
    runToEnd code length answer m =
      ((chain code length 0 (fun _ => answer) m k).1,
        (chain code length 0 (fun _ => answer) m k).2.map fun _ => ()) := by
  rw [runToEnd_eq_finish]
  exact finish_chain 0 hpauses hend 0 k.zero_le

/-- A run that is given one answer until its end puts out one word at most for each slot behind its
first one. -/
theorem finish_run_output (code : Array Word) (length cursor : Nat) (answer : Word)
    (m : Machine σ) :
    ∃ more, (finish code length answer (run code length cursor m)).1.output = m.output ++ more ∧
      more.size ≤ (length - firstSlot cursor m) / slotWidth := by
  obtain ⟨k, -, hpauses, hend⟩ := exists_isPause_eq_false code length cursor (fun _ => answer) m
  have hforward := forward_chain code length cursor (fun _ => answer) m k
  obtain ⟨more, hmore, hsize⟩ := hforward.output
  refine ⟨more, ?_, Nat.le_trans hsize hforward.length_le⟩
  have hfinish := finish_chain cursor hpauses hend 0 k.zero_le
  rw [chain] at hfinish
  rw [hfinish, hmore]

/-! ## Any code, any answers -/

/-- The calls of a chain up to number `n` go forward through the program and nowhere else. -/
structure ForwardOnly (code : Array Word) (length cursor : Nat) (answers : Nat → Word)
    (m : Machine σ) (n : Nat) : Prop extends
    Forward code length (firstSlot cursor m) (chainVisited code length cursor answers m n) m
      (chain code length cursor answers m n).1 where
  /-- There are no more slots than fit behind the first one. -/
  slots_le : (chainVisited code length cursor answers m n).length ≤
    (length - firstSlot cursor m) / slotWidth
  /-- Every pause is at a slot of its own. -/
  pauses_le : pauses code length cursor answers m n ≤
    (chainVisited code length cursor answers m n).length
  /-- The slots are all of the buffer that is looked at. -/
  reads : ∀ code' : Array Word, code'.size = code.size →
    (∀ pos ∈ chainVisited code length cursor answers m n,
      Slot.read code pos = Slot.read code' pos) →
    chain code' length cursor answers m n = chain code length cursor answers m n

variable (code length m)

/-- **Every chain of calls goes forward and comes to an end.** On any code, from any machine and for
any answers, the slots that are dispatched lie one behind the other inside the buffer, and there are
at most as many of them as fit between the first one and the end of the program. So a host that
resumes until a call does not pause is done after so many calls at most, and this is what a run to
the end does. -/
theorem forwardOnly_chain :
    (∀ n, ForwardOnly code length cursor answers m n) ∧
      (∃ k ≤ (length - firstSlot cursor m) / slotWidth,
        (∀ j < k, isPause (chain code length cursor answers m j).2 = true) ∧
          isPause (chain code length cursor answers m k).2 = false) ∧
      ∀ answer, ∃ k ≤ length / slotWidth,
        isPause (chain code length 0 (fun _ => answer) m k).2 = false ∧
          runToEnd code length answer m =
            ((chain code length 0 (fun _ => answer) m k).1,
              (chain code length 0 (fun _ => answer) m k).2.map fun _ => ()) := by
  refine ⟨fun n => ?_, exists_isPause_eq_false code length cursor answers m, fun answer => ?_⟩
  · have hforward := forward_chain code length cursor answers m n
    exact { hforward with
      slots_le := hforward.length_le
      pauses_le := pauses_le code length cursor answers m n
      reads := fun code' hsize => chain_congr_visited code length cursor answers m hsize n }
  · obtain ⟨k, hk, hpauses, hend⟩ :=
      exists_isPause_eq_false code length 0 (fun _ => answer) m
    have hbound : (length - firstSlot 0 m) / slotWidth ≤ length / slotWidth :=
      Nat.div_le_div_right (Nat.sub_le _ _)
    exact ⟨k, Nat.le_trans hk hbound, hend, runToEnd_eq_chain hpauses hend⟩

/-- `askOnce` waiting for its answer. -/
def waiting : Machine NoHost := (run askOnce 8 0 (fresh 4 NoHost.mk)).1

/-- Where a machine that waits is told to run does not bound its slots: it refuses, and goes on from
where it waits. -/
theorem not_slots_le_waiting : Code.IsLength 8 askOnce.size ∧ 8 % slotWidth = 0 ∧
    waiting.isSuspended = true ∧
    ¬ (chainVisited askOnce 8 8 (fun _ => 7) waiting 1).length ≤ (8 - 8) / slotWidth := by
  have hslots : chainVisited askOnce 8 8 (fun _ => 7) waiting 1 = [4] := by cbv
  refine ⟨by decide, by decide, run_askOnce, ?_⟩
  rw [hslots]
  decide

end BytecodeSearch.Machine
