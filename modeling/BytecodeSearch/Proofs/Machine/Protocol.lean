import BytecodeSearch.Proofs.Machine.Progress

/-!
# Calls in any order

A host may call a machine in any order: run code on it, answer what it waits for, set registers, load
memory, reset it. A `Request` is such a call, with the output buffer and the host that are lent to it,
and a `session` is a list of requests, each with what came of it.

The theory is about the register that waits. Behind any session the machine waits exactly if the last
thing that could say so was a pause (`protocol_of_session`). A call that is refused before any slot
leaves the machine as it was, except that an answer is taken before the length is looked at: a resumed
machine does not wait any more, also when it has not run (`refused_calls`).
-/

set_option autoImplicit false

namespace BytecodeSearch

/-! ## Faults of slots and refusals -/

theorem OperandKind.check_ne_badLength (pos : Nat) (w : Word) (kind : OperandKind)
    (length capacity : Nat) : kind.check pos w ≠ .error (.badLength length capacity) := by
  cases kind with
  | immediate => simp [check]
  | register =>
      simp only [check, Reg.read]
      split <;> simp [Except.map]
  | target =>
      simp only [check, Target.read]
      split
      · split <;> simp [Except.map]
      · simp [Except.map]

theorem Slot.checkArgs_ne_badLength (pos : Nat) (kinds : List OperandKind) (ws : List Word)
    (length capacity : Nat) : checkArgs pos kinds ws ≠ .error (.badLength length capacity) := by
  induction kinds generalizing ws with
  | nil => simp [checkArgs]
  | cons kind kinds ih =>
      cases ws with
      | nil => simp [checkArgs]
      | cons w ws =>
          have hhead := kind.check_ne_badLength pos w length capacity
          unfold checkArgs
          cases hcheck : kind.check pos w with
          | ok u => exact ih ws
          | error e =>
              rw [hcheck] at hhead
              exact hhead

/-- No slot is at fault for the length of the program. -/
theorem Slot.check_ne_badLength (pos : Nat) (s : Slot) (length capacity : Nat) :
    s.check pos ≠ .error (.badLength length capacity) := by
  unfold check
  cases Opcode.ofWord? s.opcode with
  | none => simp
  | some op =>
      have hargs := checkArgs_ne_badLength pos op.layout s.args length capacity
      cases hcheck : checkArgs pos op.layout s.args with
      | ok u => simp [hcheck, bind, Except.bind, pure, Except.pure]
      | error e =>
          rw [hcheck] at hargs
          simpa [hcheck, bind, Except.bind] using hargs

/-- Whether a call is refused with this error, before any slot. -/
def RunError.isRefusal : RunError → Bool
  | .code (.badLength _ _) | .misalignedCursor _ | .notSuspended | .alreadySuspended _ => true
  | .code _ => false

namespace Machine

variable {σ : Type} [Sensors σ] {code : Array Word} {length : Nat}

theorem isRefusal_of_loop {m m' : Machine σ} {e : RunError}
    (h : loop code length m = (m', .error e)) : ∃ fault, e = .code fault ∧ e.isRefusal = false := by
  obtain ⟨t, fault, -, -, hcheck, rfl, -⟩ := loop_eq_error_iff.mp h
  refine ⟨fault, rfl, ?_⟩
  cases fault with
  | badLength l c => exact absurd hcheck (Slot.check_ne_badLength _ _ _ _)
  | unknownOpcode | registerOutOfRange | backwardJump | misalignedJump => rfl

/-- A start fails at a slot, or is refused and changes nothing. -/
theorem start_eq_error {cursor : Nat} {m m' : Machine σ} {e : RunError}
    (h : start code length cursor m = (m', .error e)) :
    (∃ fault, e = .code fault ∧ e.isRefusal = false) ∨
      m' = m ∧ (e = .code (.badLength length code.size) ∨
        e = .misalignedCursor cursor ∧ cursor % slotWidth ≠ 0) := by
  by_cases hstart : Code.IsLength length code.size ∧ cursor % slotWidth = 0
  · rw [start_eq_loop hstart.1 hstart.2] at h
    exact .inl (isRefusal_of_loop h)
  · rw [start_eq_of_refused hstart] at h
    obtain ⟨rfl, he⟩ := Prod.mk.inj h
    obtain rfl := Except.error.inj he
    refine .inr ⟨rfl, ?_⟩
    by_cases hlength : Code.IsLength length code.size
    · rw [if_pos hlength]
      exact .inr ⟨rfl, fun hcursor => hstart ⟨hlength, hcursor⟩⟩
    · rw [if_neg hlength]
      exact .inl rfl

/-- Whether a machine waits is no concern of a start. -/
theorem start_ne_of_waiting {cursor : Nat} {m m' : Machine σ} {e : RunError}
    (h : start code length cursor m = (m', .error e)) :
    e ≠ .notSuspended ∧ ∀ c, e ≠ .alreadySuspended c := by
  rcases start_eq_error h with ⟨fault, rfl, -⟩ | ⟨-, rfl | ⟨rfl, -⟩⟩
  · simp
  · simp
  · simp

theorem start_of_refusal {cursor : Nat} {m : Machine σ} {e : RunError}
    (h : (start code length cursor m).2 = .error e) (he : e.isRefusal = true) :
    (start code length cursor m).1 = m := by
  rcases start_eq_error (Prod.ext rfl h) with ⟨fault, -, hfault⟩ | ⟨hm, -⟩
  · rw [hfault] at he
    exact absurd he Bool.false_ne_true
  · exact hm

/-- **What a refused call leaves.** A run that is refused leaves the machine as it was. A machine that
is resumed and refused has taken the answer: it is as it was exactly if it did not wait. -/
theorem refused_calls (code : Array Word) (length : Nat) (m : Machine σ) :
    (∀ cursor e, (run code length cursor m).2 = .error e → e.isRefusal = true →
      (run code length cursor m).1 = m) ∧
      ∀ answer e, (resume code length answer m).2 = .error e → e.isRefusal = true →
        ((resume code length answer m).1 = m ↔ m.isSuspended = false) ∧
          ∀ dst, m.pending = some dst → (resume code length answer m).1 = m.take dst answer := by
  constructor
  · intro cursor e h he
    cases hm : m.pending with
    | some dst => rw [run_of_pending hm]
    | none =>
        rw [run_of_rest hm] at h ⊢
        exact start_of_refusal h he
  · intro answer e h he
    cases hm : m.pending with
    | none =>
        rw [resume_of_rest hm]
        simp [isSuspended, hm]
    | some dst =>
        rw [resume_of_pending hm] at h ⊢
        have htaken : (start code length m.cursor (m.take dst answer)).1 = m.take dst answer :=
          start_of_refusal h he
        rw [htaken]
        refine ⟨?_, fun d hd => by rw [Option.some.inj hd]⟩
        constructor
        · intro hsame
          -- the machine behind the call does not wait
          have hrest : m.pending = none := by
            rw [← hsame]
            rfl
          rw [hm] at hrest
          cases hrest
        · intro hrest
          simp [isSuspended, hm] at hrest

/-- A machine that waits loses the register that waits to a call with a length that is no whole number
of slots. The answer is stored, and cannot be given again. -/
theorem not_isSuspended_refused :
    waiting.isSuspended = true ∧
      (resume askOnce 6 7 waiting).2 = .error (.code (.badLength 6 8)) ∧
      (resume askOnce 6 7 waiting).1.isSuspended = false ∧
      waiting.get 1 = 0 ∧ (resume askOnce 6 7 waiting).1.get 1 = 7 ∧
      (resume askOnce 8 7 (resume askOnce 6 7 waiting).1).2 = .error .notSuspended := by
  refine ⟨run_askOnce, ?_, ?_, ?_, ?_, ?_⟩ <;> cbv

/-- On a length that is no whole number of slots a machine at rest stays as it is, and one that waits
does not. -/
theorem refused_askOnce : (run askOnce 6 0 (fresh 4 NoHost.mk)).1 = fresh 4 NoHost.mk ∧
    (resume askOnce 6 7 waiting).1 ≠ waiting := by
  have hrun : (run askOnce 6 0 (fresh 4 NoHost.mk)).2 = .error (.code (.badLength 6 8)) := by cbv
  have hresume : (resume askOnce 6 7 waiting).2 = .error (.code (.badLength 6 8)) := by cbv
  refine ⟨(refused_calls askOnce 6 _).1 0 _ hrun rfl, fun hsame => ?_⟩
  have hrest := ((refused_calls askOnce 6 waiting).2 7 _ hresume rfl).1.mp hsame
  exact Bool.false_ne_true (hrest.symm.trans run_askOnce)

/-! ## Pauses -/

/-- A call has paused: the machine it has left waits behind an `in` slot of the code, and goes on from
there. The query is the value of the register that the slot names first. -/
structure Paused (code : Array Word) (length : Nat) (dst : Reg) (query : Word) (cursor : Nat)
    (m : Machine σ) : Prop where
  /-- The register waits. -/
  pending : m.pending = some dst
  /-- The machine goes on from the cursor reported. -/
  resumes : m.cursor = cursor
  /-- It stands behind an `in` slot of the program with this query. -/
  asked : ∃ pos, cursor = pos + slotWidth ∧ pos % slotWidth = 0 ∧ pos < length ∧
    (Slot.read code pos).opcode = Opcode.ask.word ∧
    Reg.read pos (Slot.read code pos).arg2 = .ok dst ∧
    ∃ r, Reg.read pos (Slot.read code pos).arg1 = .ok r ∧ query = m.get r

theorem paused_of_step {m done : Machine σ} {query : Word} {dst : Reg}
    (hm : m.cursor % slotWidth = 0) (below : m.cursor < length)
    (slot : step code m = (done, .ok (.pause query dst))) :
    Paused code length dst query (m.cursor + slotWidth)
      { done with cursor := m.cursor + slotWidth, pending := some dst } := by
  obtain ⟨op, i, hop, hi, hexec⟩ := step_eq_ok_iff.mp slot
  obtain ⟨r, rfl, hquery, rfl⟩ := eq_ask_of_exec_pause hexec
  obtain ⟨rfl, hr, hdst⟩ := Slot.eq_ask_of_decodeArgs hi
  exact ⟨rfl, rfl, m.cursor, rfl, hm, below, Opcode.ofWord?_eq_some_iff.mp hop, hdst, r, hr, hquery⟩

/-- A run waits at its end exactly if it pauses, and then it waits behind a slot that asks. -/
theorem isSuspended_loop {m : Machine σ} (hm : m.cursor % slotWidth = 0) (hrest : m.pending = none) :
    (loop code length m).1.isSuspended = isPause (loop code length m).2 ∧
      ∀ dst query cursor, (loop code length m).2 = .ok (.suspended dst query cursor) →
        Paused code length dst query cursor (loop code length m).1 := by
  refine loop_induct code length
    (P := fun m m' r => m.cursor % slotWidth = 0 → m.pending = none →
      m'.isSuspended = isPause r ∧ ∀ dst query cursor, r = .ok (.suspended dst query cursor) →
        Paused code length dst query cursor m') ?_ ?_ m hm hrest
  · intro m m' r hends hm hrest
    cases hends with
    | completed past => exact ⟨by simp [isSuspended, isPause, hrest], by simp⟩
    | fault below slot =>
        have hstill : m'.pending = none := by rw [← hrest, ← (step_frame code m).2.1, slot]
        exact ⟨by simp [isSuspended, isPause, hstill], by simp⟩
    | pause below slot =>
        refine ⟨rfl, fun dst query cursor hr => ?_⟩
        obtain ⟨rfl, rfl, rfl⟩ := Halt.suspended.inj (Except.ok.inj hr)
        exact paused_of_step hm below slot
  · intro m t m' r hadv _ ih hm hrest
    exact ih (hadv.aligned hm) (hadv.pending.trans hrest)

theorem isSuspended_start {cursor : Nat} {m : Machine σ} (hrest : m.pending = none) :
    (start code length cursor m).1.isSuspended = isPause (start code length cursor m).2 ∧
      ∀ dst query c, (start code length cursor m).2 = .ok (.suspended dst query c) →
        Paused code length dst query c (start code length cursor m).1 := by
  by_cases hstart : Code.IsLength length code.size ∧ cursor % slotWidth = 0
  · rw [start_eq_loop hstart.1 hstart.2]
    exact isSuspended_loop (m := { m with cursor := cursor }) hstart.2 hrest
  · rw [start_eq_of_refused hstart]
    exact ⟨by simp [isSuspended, isPause, hrest], by simp⟩

theorem aligned_start {cursor : Nat} {m : Machine σ} (hm : m.cursor % slotWidth = 0) :
    (start code length cursor m).1.cursor % slotWidth = 0 := by
  by_cases hstart : Code.IsLength length code.size ∧ cursor % slotWidth = 0
  · rw [start_eq_loop hstart.1 hstart.2]
    exact aligned_loop code length { m with cursor := cursor } hstart.2
  · rw [start_eq_of_refused hstart]
    exact hm

/-! ## One call -/

theorem paused_of_run {cursor : Nat} {m : Machine σ} {dst : Reg} {query : Word} {c : Nat}
    (h : (run code length cursor m).2 = .ok (.suspended dst query c)) :
    Paused code length dst query c (run code length cursor m).1 := by
  cases hm : m.pending with
  | none =>
      rw [run_of_rest hm] at h ⊢
      exact (isSuspended_start hm).2 dst query c h
  | some d =>
      rw [run_of_pending hm] at h
      cases h

theorem paused_of_resume {answer : Word} {m : Machine σ} {dst : Reg} {query : Word} {c : Nat}
    (h : (resume code length answer m).2 = .ok (.suspended dst query c)) :
    Paused code length dst query c (resume code length answer m).1 := by
  cases hm : m.pending with
  | none =>
      rw [resume_of_rest hm] at h
      cases h
  | some d =>
      rw [resume_of_pending hm] at h ⊢
      exact (isSuspended_start (m := m.take d answer) rfl).2 dst query c h

/-- A run is refused for a pause exactly by a machine that waits, which says where it waits. -/
theorem run_eq_alreadySuspended_iff {cursor : Nat} {m : Machine σ} {c : Nat} :
    (run code length cursor m).2 = .error (.alreadySuspended c) ↔
      m.isSuspended = true ∧ c = m.cursor := by
  cases hm : m.pending with
  | some dst => simp [run_of_pending hm, isSuspended, hm, eq_comm]
  | none =>
      rw [run_of_rest hm]
      simp only [isSuspended, hm, Option.isSome_none, Bool.false_eq_true, false_and, iff_false]
      exact fun h => (start_ne_of_waiting (Prod.ext rfl h)).2 c rfl

/-- There is nothing to resume exactly if the machine does not wait. -/
theorem resume_eq_notSuspended_iff {answer : Word} {m : Machine σ} :
    (resume code length answer m).2 = .error .notSuspended ↔ m.isSuspended = false := by
  cases hm : m.pending with
  | none => simp [resume_of_rest hm, isSuspended, hm]
  | some dst =>
      rw [resume_of_pending hm]
      simp only [isSuspended, hm, Option.isSome_some, Bool.true_eq_false, iff_false]
      exact fun h => (start_ne_of_waiting (Prod.ext rfl h)).1 rfl

/-- A machine whose cursor is at a slot boundary is not refused for it when it is resumed. -/
theorem resume_ne_misalignedCursor {answer : Word} {m : Machine σ}
    (hm : m.cursor % slotWidth = 0) (c : Nat) :
    (resume code length answer m).2 ≠ .error (.misalignedCursor c) := by
  intro h
  cases hpending : m.pending with
  | none =>
      rw [resume_of_rest hpending] at h
      cases h
  | some dst =>
      rw [resume_of_pending hpending] at h
      rcases start_eq_error (Prod.ext rfl h) with ⟨fault, he, -⟩ | ⟨-, he | ⟨-, hne⟩⟩
      · cases he
      · cases he
      · exact hne hm

/-! ## Sessions -/

/-- A call of a host. To a run and to an answer it lends an output buffer and what sensors reach. -/
inductive Request (σ : Type) where
  | run (code : Array Word) (length cursor : Nat) (output : Array Word) (host : σ)
  | resume (code : Array Word) (length : Nat) (answer : Word) (output : Array Word) (host : σ)
  | setRegister (index : Word) (w : Word)
  | load (input : Array Word)
  | reset

/-- What comes of a call. -/
inductive Response where
  | halted (result : Except RunError Halt)
  | stored (result : Except CodeError Unit)
  | done

/-- Whether a pause that has come before does not count any more behind the call. -/
def Request.endsPause : Request σ → Bool
  | .resume .. | .reset => true
  | .run .. | .setRegister .. | .load _ => false

/-- Whether the call has paused. -/
def Response.isPause : Response → Bool
  | .halted result => Machine.isPause result
  | .stored _ | .done => false

/-- The machine with another output buffer and another host. -/
def lend (m : Machine σ) (output : Array Word) (host : σ) : Machine σ :=
  { m with output := output, host := host }

/-- Makes a call. -/
def serve (m : Machine σ) : Request σ → Response × Machine σ
  | .run code length cursor output host =>
      let (m, result) := Machine.run code length cursor (m.lend output host)
      (.halted result, m)
  | .resume code length answer output host =>
      let (m, result) := Machine.resume code length answer (m.lend output host)
      (.halted result, m)
  | .setRegister index w =>
      match m.setRegister index w with
      | .ok m => (.stored (.ok ()), m)
      | .error e => (.stored (.error e), m)
  | .load input => (.done, m.load input)
  | .reset => (.done, m.reset)

/-- Makes calls one after the other, and keeps each with what has come of it. -/
def session : List (Request σ) → Machine σ → List (Request σ × Response) × Machine σ
  | [], m => ([], m)
  | request :: rest, m =>
      let (response, m) := m.serve request
      let (log, m) := session rest m
      ((request, response) :: log, m)

theorem serve_setRegister (m : Machine σ) (index w : Word) :
    (m.serve (.setRegister index w)).1.isPause = false ∧
      (m.serve (.setRegister index w)).2.pending = m.pending ∧
      (m.serve (.setRegister index w)).2.cursor = m.cursor := by
  simp only [serve, setRegister]
  cases Reg.ofWord? index with
  | none => exact ⟨rfl, rfl, rfl⟩
  | some r => exact ⟨rfl, rfl, rfl⟩

/-- No call leaves the cursor between slot boundaries. -/
theorem aligned_serve {m : Machine σ} (hm : m.cursor % slotWidth = 0) (request : Request σ) :
    (m.serve request).2.cursor % slotWidth = 0 := by
  cases request with
  | run code length cursor output host =>
      show (run code length cursor (m.lend output host)).1.cursor % slotWidth = 0
      cases hpending : (m.lend output host).pending with
      | none =>
          rw [run_of_rest hpending]
          exact aligned_start hm
      | some dst =>
          rw [run_of_pending hpending]
          exact hm
  | resume code length answer output host =>
      show (resume code length answer (m.lend output host)).1.cursor % slotWidth = 0
      cases hpending : (m.lend output host).pending with
      | none =>
          rw [resume_of_rest hpending]
          exact hm
      | some dst =>
          rw [resume_of_pending hpending]
          exact aligned_start (m := (m.lend output host).take dst answer) hm
  | setRegister index w =>
      rw [(serve_setRegister m index w).2.2]
      exact hm
  | load input => exact hm
  | reset => exact Nat.zero_mod slotWidth

/-- **One call**: behind it the machine waits if the call has paused, or if the machine has waited
before and the call does not end the pause. -/
theorem isSuspended_serve (m : Machine σ) (request : Request σ) :
    (m.serve request).2.isSuspended = true ↔ (m.serve request).1.isPause = true ∨
      m.isSuspended = true ∧ request.endsPause = false := by
  cases request with
  | run code length cursor output host =>
      show (run code length cursor (m.lend output host)).1.isSuspended = true ↔
        isPause (run code length cursor (m.lend output host)).2 = true ∨
          (m.lend output host).isSuspended = true ∧ _
      cases hpending : (m.lend output host).pending with
      | none =>
          rw [run_of_rest hpending, (isSuspended_start hpending).1]
          simp [isSuspended, hpending]
      | some dst =>
          rw [run_of_pending hpending]
          simp [isSuspended, hpending, isPause, Request.endsPause]
  | resume code length answer output host =>
      show (resume code length answer (m.lend output host)).1.isSuspended = true ↔
        isPause (resume code length answer (m.lend output host)).2 = true ∨ _
      cases hpending : (m.lend output host).pending with
      | none =>
          rw [resume_of_rest hpending]
          simp [isSuspended, hpending, isPause, Request.endsPause]
      | some dst =>
          rw [resume_of_pending hpending,
            (isSuspended_start (m := (m.lend output host).take dst answer) rfl).1]
          simp [Request.endsPause]
  | setRegister index w =>
      obtain ⟨hpause, hpending, -⟩ := serve_setRegister m index w
      rw [hpause, isSuspended, hpending]
      simp [isSuspended, Request.endsPause]
  | load input =>
      show m.isSuspended = true ↔ false = true ∨ m.isSuspended = true ∧ false = false
      simp
  | reset =>
      show false = true ↔ false = true ∨ m.isSuspended = true ∧ true = false
      simp

/-- A pause stands in the log, and no call behind it ends it. -/
def IsPending (log : List (Request σ × Response)) : Prop :=
  ∃ before exchange after, log = before ++ exchange :: after ∧ exchange.2.isPause = true ∧
    ∀ later ∈ after, later.1.endsPause = false

omit [Sensors σ] in
theorem isPending_cons {exchange : Request σ × Response} {log : List (Request σ × Response)} :
    IsPending (exchange :: log) ↔ IsPending log ∨
      exchange.2.isPause = true ∧ ∀ later ∈ log, later.1.endsPause = false := by
  constructor
  · rintro ⟨before, paused, after, hlog, hpause, hafter⟩
    cases before with
    | nil =>
        obtain ⟨rfl, rfl⟩ := List.cons.inj hlog
        exact .inr ⟨hpause, hafter⟩
    | cons first before =>
        obtain ⟨rfl, rfl⟩ := List.cons.inj hlog
        exact .inl ⟨before, paused, after, rfl, hpause, hafter⟩
  · rintro (⟨before, paused, after, rfl, hpause, hafter⟩ | ⟨hpause, hafter⟩)
    · exact ⟨exchange :: before, paused, after, rfl, hpause, hafter⟩
    · exact ⟨[], exchange, log, rfl, hpause, hafter⟩

theorem aligned_session {m : Machine σ} (hm : m.cursor % slotWidth = 0)
    (requests : List (Request σ)) : (session requests m).2.cursor % slotWidth = 0 := by
  induction requests generalizing m with
  | nil => exact hm
  | cons request rest ih => exact ih (aligned_serve hm request)

/-- Behind a session the machine waits if a pause is pending, or if it has waited before and no call
has ended that. -/
theorem isSuspended_session (requests : List (Request σ)) (m : Machine σ) :
    (session requests m).2.isSuspended = true ↔ IsPending (session requests m).1 ∨
      m.isSuspended = true ∧ ∀ exchange ∈ (session requests m).1, exchange.1.endsPause = false := by
  induction requests generalizing m with
  | nil => simp [session, IsPending]
  | cons request rest ih =>
      have hlog : (session (request :: rest) m).1 =
          (request, (m.serve request).1) :: (session rest (m.serve request).2).1 := rfl
      have hlast : (session (request :: rest) m).2 = (session rest (m.serve request).2).2 := rfl
      rw [hlog, hlast, ih, isSuspended_serve, isPending_cons, List.forall_mem_cons]
      tauto

/-- **The protocol of pauses**, behind any calls of a fresh machine. The cursor is at a slot boundary,
and the machine waits exactly if a run or an answer has paused and there has been no answer and no
reset since. In this state a run is refused exactly if the machine waits, and says where; an answer is
refused as unasked exactly if it does not, and never for the cursor; and a call that pauses says which
register waits, which value is asked for and where the machine goes on, behind an `in` slot of the
code that has run. -/
theorem protocol_of_session (size : Nat) (host : σ) (requests : List (Request σ)) :
    let log := (session requests (fresh size host)).1
    let m := (session requests (fresh size host)).2
    m.cursor % slotWidth = 0 ∧
      (m.isSuspended = true ↔ IsPending log) ∧
      (∀ code length cursor output host,
        (∀ c, (run code length cursor (m.lend output host)).2 = .error (.alreadySuspended c) ↔
          m.isSuspended = true ∧ c = m.cursor) ∧
        ∀ dst query c,
          (run code length cursor (m.lend output host)).2 = .ok (.suspended dst query c) →
            Paused code length dst query c (run code length cursor (m.lend output host)).1) ∧
      ∀ code length answer output host,
        (∀ c, (resume code length answer (m.lend output host)).2 ≠ .error (.misalignedCursor c)) ∧
        ((resume code length answer (m.lend output host)).2 = .error .notSuspended ↔
          m.isSuspended = false) ∧
        ∀ dst query c,
          (resume code length answer (m.lend output host)).2 = .ok (.suspended dst query c) →
            Paused code length dst query c (resume code length answer (m.lend output host)).1 := by
  intro log m
  have haligned : m.cursor % slotWidth = 0 := aligned_session (Nat.zero_mod slotWidth) requests
  have hrest : (fresh size host).isSuspended = false := rfl
  refine ⟨haligned, ?_, ?_, ?_⟩
  · show (session requests (fresh size host)).2.isSuspended = true ↔ _
    rw [isSuspended_session, hrest]
    simp only [Bool.false_eq_true, false_and, or_false]
    exact Iff.rfl
  · intro code length cursor output host
    exact ⟨fun c => run_eq_alreadySuspended_iff, fun dst query c => paused_of_run⟩
  · intro code length answer output host
    exact ⟨resume_ne_misalignedCursor (m := m.lend output host) haligned, resume_eq_notSuspended_iff,
      fun dst query c => paused_of_resume⟩

/-- A run that pauses, and a register set while the machine waits. -/
def askedSession : List (Request NoHost) := [.run askOnce 8 0 #[] NoHost.mk, .setRegister 3 9]

theorem protocol_askedSession :
    IsPending (session askedSession (fresh 4 NoHost.mk)).1 ∧
      (run askOnce 8 0 ((session askedSession (fresh 4 NoHost.mk)).2.lend #[] NoHost.mk)).2 =
        .error (.alreadySuspended 4) := by
  obtain ⟨-, hwaits, hrun, -⟩ := protocol_of_session 4 NoHost.mk askedSession
  have hsuspended : (session askedSession (fresh 4 NoHost.mk)).2.isSuspended = true := by cbv
  have hcursor : (session askedSession (fresh 4 NoHost.mk)).2.cursor = 4 := by cbv
  refine ⟨hwaits.mp hsuspended, ?_⟩
  exact ((hrun askOnce 8 0 #[] NoHost.mk).1 4).mpr ⟨hsuspended, hcursor.symm⟩

end Machine

end BytecodeSearch
