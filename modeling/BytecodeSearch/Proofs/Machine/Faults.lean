import BytecodeSearch.Proofs.Machine.Calls
import Mathlib

/-!
# Faults

The machine reads the operands of an instruction while it runs, and the check of code reads them
from the table of layouts. This theory shows that the two never disagree: a run has a fault exactly
if its way through the code comes to a slot that the check refuses, the fault is the one the check
reports, and the slot has done nothing but to be counted, if its opcode is known
(`run_eq_error_iff`). Code that passes the check has no fault, in a run or behind any of its
pauses.
-/

set_option autoImplicit false

namespace BytecodeSearch

namespace Slot

variable {pos : Nat}

theorem map_eq_error_iff {ε α : Type} {x : Except ε α} {e : ε} :
    x.map (fun _ => ()) = .error e ↔ x = .error e := by
  cases x with
  | error d => simp [Except.map]
  | ok a => simp [Except.map]

/-- The check finds what stops a slot from being decoded. -/
theorem check_eq_error_iff {s : Slot} {e : CodeError} :
    s.check pos = .error e ↔
      (Opcode.ofWord? s.opcode = none ∧ e = .unknownOpcode s.opcode pos) ∨
        ∃ op, Opcode.ofWord? s.opcode = some op ∧ s.decodeArgs pos op = .error e := by
  unfold check
  cases hop : Opcode.ofWord? s.opcode with
  | none => simp [eq_comm]
  | some op =>
      have hargs : checkArgs pos op.layout s.args = .error e ↔ s.decodeArgs pos op = .error e := by
        rw [← map_decodeArgs]
        exact map_eq_error_iff
      cases hcheck : checkArgs pos op.layout s.args with
      | error d =>
          rw [hcheck] at hargs
          simpa [hcheck, bind, Except.bind] using hargs
      | ok u =>
          rw [hcheck] at hargs
          simpa [hcheck, bind, Except.bind, pure, Except.pure] using hargs

end Slot

namespace Machine

variable {σ : Type} [Sensors σ] {code : Array Word} {length : Nat}

/-! ## One slot -/

/-- The machine that a faulty slot leaves: the slot is counted if its opcode is known. -/
def atFault (code : Array Word) (m : Machine σ) : Machine σ :=
  { m with
    steps := m.steps +
      if (Opcode.ofWord? (Slot.read code m.cursor).opcode).isSome then 1 else 0 }

/-- **A slot is at fault exactly if the check refuses it**, for the same reason, and it has no
effect. -/
theorem step_eq_error_iff {m done : Machine σ} {e : CodeError} :
    step code m = (done, .error e) ↔
      (Slot.read code m.cursor).check m.cursor = .error e ∧ done = m.atFault code := by
  rw [Slot.check_eq_error_iff]
  cases hop : Opcode.ofWord? (Slot.read code m.cursor).opcode with
  | none =>
      have hat : m.atFault code = m := by simp [atFault, hop]
      simp only [step, hop, hat, Prod.mk.injEq, Except.error.injEq]
      constructor
      · rintro ⟨rfl, rfl⟩
        exact ⟨.inl ⟨trivial, rfl⟩, rfl⟩
      · rintro ⟨⟨-, rfl⟩ | ⟨op, hknown, -⟩, rfl⟩
        · exact ⟨rfl, rfl⟩
        · simp at hknown
  | some op =>
      have hat : m.atFault code = counted m := by simp [atFault, counted, hop]
      cases hargs : (Slot.read code m.cursor).decodeArgs m.cursor op with
      | error d =>
          simp only [step, hop, hargs, hat, Prod.mk.injEq, Except.error.injEq]
          constructor
          · rintro ⟨rfl, rfl⟩
            exact ⟨.inr ⟨op, rfl, hargs⟩, rfl⟩
          · rintro ⟨⟨hunknown, -⟩ | ⟨op', hop', hargs'⟩, rfl⟩
            · simp at hunknown
            · obtain rfl := Option.some.inj hop'
              rw [hargs] at hargs'
              exact ⟨rfl, Except.error.inj hargs'⟩
      | ok i =>
          -- the slot decodes, so neither side has a fault
          simp only [step, hop, hargs, Prod.mk.injEq]
          simp [hargs]

/-! ## The way of a run -/

/-- The run from `m` executes some slots, one after the other, and has then come to `t`. -/
def Reaches (code : Array Word) (length : Nat) : Machine σ → Machine σ → Prop :=
  Relation.ReflTransGen (Advance code length)

theorem Reaches.loop_eq {m t : Machine σ} (h : Reaches code length m t) :
    loop code length m = loop code length t := by
  induction h with
  | refl => rfl
  | tail _ hadv ih => rw [ih, hadv.loop_eq]

theorem Reaches.pending {m t : Machine σ} (h : Reaches code length m t) :
    t.pending = m.pending := by
  induction h with
  | refl => rfl
  | tail _ hadv ih => rw [hadv.pending, ih]

/-- Every run goes some way and ends there. -/
theorem exists_reaches_ends (code : Array Word) (length : Nat) (m : Machine σ) :
    ∃ t, Reaches code length m t ∧
      Ends code length t (loop code length m).1 (loop code length m).2 := by
  refine loop_induct code length
    (P := fun m m' r => ∃ t, Reaches code length m t ∧ Ends code length t m' r) ?_ ?_ m
  · intro m m' r hends
    exact ⟨m, .refl, hends⟩
  · intro m t m' r hadv _ ih
    obtain ⟨u, hreaches, hends⟩ := ih
    exact ⟨u, .head hadv hreaches, hends⟩

/-- A run has a fault exactly if its way comes to a slot that the check refuses. -/
theorem loop_eq_error_iff {m m' : Machine σ} {e : RunError} :
    loop code length m = (m', .error e) ↔
      ∃ t fault, Reaches code length m t ∧ t.cursor < length ∧
        (Slot.read code t.cursor).check t.cursor = .error fault ∧ e = .code fault ∧
        m' = t.atFault code := by
  constructor
  · intro h
    obtain ⟨t, hreaches, hends⟩ := exists_reaches_ends code length m
    rw [h] at hends
    cases hends with
    | fault below slot =>
        obtain ⟨hcheck, hdone⟩ := step_eq_error_iff.mp slot
        exact ⟨t, _, hreaches, below, hcheck, rfl, hdone⟩
  · rintro ⟨t, fault, hreaches, below, hcheck, rfl, rfl⟩
    have hfault := Ends.fault below (step_eq_error_iff.mpr ⟨hcheck, rfl⟩)
    rw [hreaches.loop_eq, hfault.loop_eq]

/-! ## Calls -/

/-- A machine that waits behind a slot of valid code is resumed without a fault. -/
theorem exists_resume_eq_ok (hcode : Code.IsValid code length) {m : Machine σ}
    (hm : m.isSuspended = true) (haligned : RestsAligned m) (answer : Word) :
    ∃ m' halt, resume code length answer m = (m', .ok halt) := by
  obtain ⟨dst, hdst⟩ := Option.isSome_iff_exists.mp hm
  rw [resume_eq_loop hcode.isLength answer hdst (haligned hm)]
  exact exists_loop_eq_ok hcode (m.take dst answer) (haligned hm)

/-- **Faults are what the check refuses.** A run ends in an error exactly if its way comes to a slot
below the length that the check refuses, with the same error. The machine is then the one that the
slots before have left, with the cursor at the faulty slot, which is counted if its opcode is known;
it does not wait. On code that passes validation neither a run nor any call that resumes a pause
behind it ends in an error. -/
theorem run_eq_error_iff {cursor : Nat} {m : Machine σ} (hlength : Code.IsLength length code.size)
    (hcursor : cursor % slotWidth = 0) (hm : m.isSuspended = false) :
    (∀ m' e, run code length cursor m = (m', .error e) ↔
      ∃ t fault, Reaches code length { m with cursor := cursor } t ∧ t.cursor < length ∧
        (Slot.read code t.cursor).check t.cursor = .error fault ∧ e = .code fault ∧
        m' = t.atFault code ∧ m'.isSuspended = false) ∧
      (Code.validate code length = .ok () → ∀ answers : Nat → Word,
        (∃ m' halt, run code length cursor m = (m', .ok halt)) ∧
          ∀ n, (chain code length cursor answers m n).1.isSuspended = true →
            ∃ m' halt, chain code length cursor answers m (n + 1) = (m', .ok halt)) := by
  have hpending : m.pending = none := by simpa [isSuspended] using hm
  have hrun := run_eq_loop hlength hcursor hpending
  constructor
  · intro m' e
    rw [hrun, loop_eq_error_iff]
    constructor
    · rintro ⟨t, fault, hreaches, below, hcheck, rfl, rfl⟩
      have hrest : t.pending = none := hreaches.pending.trans hpending
      refine ⟨t, fault, hreaches, below, hcheck, rfl, rfl, ?_⟩
      simp [isSuspended, atFault, hrest]
    · rintro ⟨t, fault, hreaches, below, hcheck, rfl, rfl, -⟩
      exact ⟨t, fault, hreaches, below, hcheck, rfl, rfl⟩
  · intro hvalid answers
    have hcode := Code.validate_eq_ok_iff.mp hvalid
    constructor
    · rw [hrun]
      exact exists_loop_eq_ok hcode { m with cursor := cursor } hcursor
    · intro n hwaits
      have haligned := restsAligned_chain code length cursor answers hpending n
      exact exists_resume_eq_ok hcode hwaits haligned (answers n)

/-- Puts out a register and then counts up one that is not there. -/
def countNinth : Array Word := #[14, 0, 0, 0, 2, 8, 0, 0]

/-- Asks once and puts the answer out. -/
def askOnce : Array Word := #[24, 0, 1, 0, 14, 1, 0, 0]

theorem run_countNinth : (run countNinth 8 0 (fresh 4 NoHost.mk)).2 =
    .error (.code (.registerOutOfRange 8 4)) := by cbv

theorem run_askOnce : (run askOnce 8 0 (fresh 4 NoHost.mk)).1.isSuspended = true := by cbv

theorem run_eq_error_iff_countNinth :
    (∃ t, Reaches countNinth 8 (fresh 4 NoHost.mk) t ∧
      (Slot.read countNinth t.cursor).check t.cursor = .error (.registerOutOfRange 8 4) ∧
      (run countNinth 8 0 (fresh 4 NoHost.mk)).1 = t.atFault countNinth ∧
      (run countNinth 8 0 (fresh 4 NoHost.mk)).1.steps = 2) ∧
      ∃ m halt, resume askOnce 8 7 (run askOnce 8 0 (fresh 4 NoHost.mk)).1 = (m, .ok halt) := by
  have hlength : Code.IsLength 8 countNinth.size := by decide
  have hlength' : Code.IsLength 8 askOnce.size := by decide
  have hvalid : Code.validate askOnce 8 = .ok () := by cbv
  constructor
  · obtain ⟨t, fault, hreaches, -, hcheck, hfault, hstopped, -⟩ :=
      ((run_eq_error_iff hlength (Nat.zero_mod 4) rfl).1 _ _).mp (Prod.ext rfl run_countNinth)
    obtain rfl := RunError.code.inj hfault
    exact ⟨t, hreaches, hcheck, hstopped, by cbv⟩
  · exact ((run_eq_error_iff hlength' (Nat.zero_mod 4) rfl).2 hvalid fun _ => 7).2 0 run_askOnce

end Machine

end BytecodeSearch
