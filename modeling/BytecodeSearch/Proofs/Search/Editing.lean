import BytecodeSearch.Proofs.Program.Representation
import BytecodeSearch.Proofs.Search.Edits
import BytecodeSearch.Random.Replay

/-!
# Editing sessions

A session is a sequence of calls of an editor: random edits, and undoing or keeping the last one.
The program of an editor stays sound in every session (`representation_of_calls`): an edit writes a
checked slot, and undoing it gives back every word of the buffer (`getD_rollback_apply`), so that
nothing is left behind the program when it becomes shorter again.
-/

set_option autoImplicit false

namespace BytecodeSearch

/-! ## Calls -/

/-- The calls of an editor: to edit at random with so many registers, to undo the last edit, and to
keep it. -/
inductive Call where
  | mutate (registers : Nat)
  | rollback
  | commit
  deriving DecidableEq, Repr

/-- What a call gives back: the offset of the slot that an edit has written, whether there was an
edit to undo, and nothing for keeping it. -/
inductive Reply where
  | wrote (pos : Nat)
  | undone (was : Bool)
  | kept
  deriving DecidableEq, Repr

/-- Makes calls one after the other, and collects what they give back. -/
def Call.runAll {α ρ : Type} (f : Call → α → ρ → Reply × α × ρ) :
    List Call → α → ρ → List Reply × α × ρ
  | [], a, g => ([], a, g)
  | c :: cs, a, g =>
      let (reply, a, g) := f c a g
      let (replies, a, g) := runAll f cs a g
      (reply :: replies, a, g)

/-- What every call keeps holds behind all of them. -/
theorem Call.runAll_rule {α ρ : Type} {f : Call → α → ρ → Reply × α × ρ} {I : α → Prop}
    (keeps : ∀ c a g, I a → I (f c a g).2.1) (cs : List Call) (a : α) (g : ρ) (ha : I a) :
    I (runAll f cs a g).2.1 := by
  induction cs generalizing a g with
  | nil => exact ha
  | cons c cs ih => exact ih _ _ (keeps c a g ha)

namespace Editor

variable {e : Editor} {edit : Edit} {registers : Nat}

/-- Makes one call. -/
def call {ρ : Type} [Generator ρ] (speed : Nat) (c : Call) (e : Editor) (g : ρ) :
    Reply × Editor × ρ :=
  match c with
  | .mutate registers =>
      let (pos, e, g) := e.mutate speed registers g
      (.wrote pos, e, g)
  | .rollback =>
      let (e, was) := e.rollback
      (.undone was, e, g)
  | .commit => (.kept, e.commit, g)

/-! ## Undoing an edit -/

theorem slot?_getD_zero {p : Program} (hp : p.IsSound) {pos : Nat} (hpos : pos % slotWidth = 0) :
    (p.slot? pos).getD Slot.zero = Slot.read p.code pos := by
  have hcapacity := hp.capacity.aligned
  unfold Program.slot?
  by_cases hfits : pos + slotWidth ≤ p.code.size
  · rw [if_pos hfits]
    rfl
  · -- the slot is past the end of the buffer as a whole
    have hpast : p.code.size ≤ pos := by
      simp only [slotWidth] at *
      omega
    rw [if_neg hfits]
    simp only [Slot.read, getD_eq_zero_of_size_le hpast,
      getD_eq_zero_of_size_le (Nat.le_add_right_of_le hpast)]
    rfl

theorem program_rollback_apply (he : e.program.IsSound) (hpos : edit.pos % slotWidth = 0) :
    (e.apply edit).rollback.1.program =
      (e.program.write edit.pos edit.slot edit.length).write edit.pos
        (Slot.read e.program.code edit.pos) e.program.length := by
  simp only [rollback, apply, slot?_getD_zero he hpos]

/-- **Undoing an edit gives back every word of the buffer**, also behind the program, and behind the
end of the buffer, where it may have grown. -/
theorem getD_rollback_apply (he : e.program.IsSound) (hpos : edit.pos % slotWidth = 0) (i : Nat) :
    (e.apply edit).rollback.1.program.code.getD i 0 = e.program.code.getD i 0 := by
  rw [program_rollback_apply he hpos, Program.getD_write]
  by_cases hi : edit.pos ≤ i ∧ i < edit.pos + slotWidth
  · -- a word of the slot: it was remembered
    have hk : i - edit.pos < slotWidth := by omega
    have hsub : edit.pos + (i - edit.pos) = i := by omega
    rw [if_pos hi, Program.getD_words_read _ _ hk, hsub]
  · -- any other word: neither of the writes has touched it
    rw [if_neg hi, Program.getD_write, if_neg hi]

/-! ## Sound editors -/

/-- The program of the editor is sound, and so is the one that undoing would bring back. -/
structure IsSound (e : Editor) : Prop where
  program : e.program.IsSound
  undone : e.rollback.1.program.IsSound

theorem isSound_ofProgram {p : Program} (hp : p.IsSound) : (ofProgram p).IsSound := ⟨hp, hp⟩

theorem isSound_apply (he : e.program.IsSound)
    (hedit : edit.IsLegal e.program.length registers) (hregisters : registers ≤ registerCount) :
    (e.apply edit).IsSound := by
  constructor
  · refine Program.isSound_write he hedit.aligned ?_ (hedit.slot.check hregisters)
    rcases hedit.place with ⟨hpos, hlength, -⟩ | hinside
    · exact .inr ⟨hpos, hlength⟩
    · exact .inl hinside
  · -- undone, the program is the one before in a buffer that may have grown
    refine ⟨isValid_rollback_apply he.valid hedit.aligned, ?_, fun i hi => ?_⟩
    · rw [program_rollback_apply he hedit.aligned]
      simp only [Program.write, Program.size_store]
      refine Program.isCapacity_reserve ?_ _
      rw [Program.size_store]
      exact Program.isCapacity_reserve he.capacity _
    · rw [length_rollback_apply] at hi
      rw [getD_rollback_apply he hedit.aligned]
      exact he.spare i hi

theorem rollback_rollback (e : Editor) : e.rollback.1.rollback.1 = e.rollback.1 := by
  cases hundo : e.undo with
  | none => simp only [rollback, hundo]
  | some u => simp only [rollback, hundo]

section

variable {ρ : Type} [Generator ρ]

theorem IsSound.exists_mutate_eq (he : e.IsSound) (speed registers : Nat) (g : ρ) :
    ∃ edit g', edit.IsLegal e.program.length (Edit.clampRegisters registers) ∧
      e.mutate speed registers g = (edit.pos, e.apply edit, g') :=
  Editor.exists_mutate_eq he.program.valid.isLength.1 speed registers g

theorem isSound_call (speed : Nat) (c : Call) (g : ρ) (he : e.IsSound) :
    (e.call speed c g).2.1.IsSound := by
  cases c with
  | mutate registers =>
      obtain ⟨edit, g', hedit, hmutate⟩ := he.exists_mutate_eq speed registers g
      simp only [call, hmutate]
      exact isSound_apply he.program hedit (Edit.clampRegisters_le registers)
  | rollback =>
      refine ⟨he.undone, ?_⟩
      simp only [call, rollback_rollback]
      exact he.undone
  | commit => exact ⟨he.program, he.program⟩

theorem isSound_runAll {p : Program} (hp : p.IsSound) (speed : Nat) (cs : List Call) (g : ρ) :
    (Call.runAll (call speed) cs (ofProgram p) g).2.1.IsSound :=
  Call.runAll_rule (fun c _ g => isSound_call speed c g) cs _ g (isSound_ofProgram hp)

theorem capacity_le_rollback (e : Editor) :
    e.program.capacity ≤ e.rollback.1.program.capacity := by
  unfold rollback
  cases e.undo with
  | none => exact Nat.le_refl _
  | some u => exact Program.size_le_size_write _ _ _ _

/-- No call makes the buffer smaller. -/
theorem capacity_le_call (speed : Nat) (c : Call) (g : ρ) (e : Editor) :
    e.program.capacity ≤ (e.call speed c g).2.1.program.capacity := by
  cases c with
  | mutate registers => exact Program.size_le_size_write _ _ _ _
  | rollback => exact capacity_le_rollback e
  | commit => exact Nat.le_refl _

/-- An edit makes a program longer only if jumps can reach its new end. -/
theorem length_mutate_le (he : e.IsSound) (speed registers : Nat) (g : ρ) :
    (e.mutate speed registers g).2.1.program.length ≤ max e.program.length Program.maxLength := by
  obtain ⟨edit, g', hedit, hmutate⟩ := he.exists_mutate_eq speed registers g
  have hlength : (e.mutate speed registers g).2.1.program.length = edit.length := by rw [hmutate]; rfl
  rw [hlength]
  rcases hedit.place with ⟨-, hgrown, hempty | hroom⟩ | ⟨-, hsame⟩
  · -- an empty program grows, whatever the room
    have hsmall : slotWidth ≤ Program.maxLength := by decide
    omega
  · omega
  · omega

end

/-! ## What holds of a program behind any calls -/

/-- The programs there is a way to come by: those just made, and those some calls have edited. -/
inductive Obtained : Program → Prop where
  | built {p : Program} (h : p.Built) : Obtained p
  | edited {ρ : Type} [Generator ρ] {p : Program} (h : Obtained p) (speed : Nat) (cs : List Call)
      (g : ρ) : Obtained (Call.runAll (call speed) cs (ofProgram p) g).2.1.program

theorem Obtained.isSound {p : Program} (h : Obtained p) : p.IsSound := by
  induction h with
  | built h => exact h.isSound
  | edited _ speed cs g ih => exact (isSound_runAll ih speed cs g).program

section

variable {ρ : Type} [Generator ρ]

/-- **Every edited program is kept in order.** Behind any calls, with any speed, registers and
generator, the program of an editor is valid; its length is a whole number of slots inside the
buffer; the size of the buffer is that of a fresh one, doubled some times; and all words behind the
program are zero. No call makes the buffer smaller. An edit keeps a program that jumps can reach the
end of such a program, and makes no longer one longer. -/
theorem representation_of_calls {p : Program} (hp : Obtained p) (speed : Nat) (cs : List Call)
    (g : ρ) :
    let e := (Call.runAll (call speed) cs (ofProgram p) g).2.1
    e.program.validate = .ok () ∧
      e.program.length % slotWidth = 0 ∧ e.program.length ≤ e.program.capacity ∧
      (∃ k, e.program.capacity = 64 * 2 ^ k) ∧
      (∀ i (h : i < e.program.code.size), e.program.length ≤ i → e.program.code[i] = 0) ∧
      (∀ c (g' : ρ), e.program.capacity ≤ (e.call speed c g').2.1.program.capacity) ∧
      ∀ registers (g' : ρ),
        (e.program.length ≤ Program.maxLength →
          (e.mutate speed registers g').2.1.program.length ≤ Program.maxLength) ∧
        (Program.maxLength < e.program.length →
          (e.mutate speed registers g').2.1.program.length ≤ e.program.length) := by
  intro e
  have he : e.IsSound := isSound_runAll hp.isSound speed cs g
  have hlength := he.program.valid.isLength
  refine ⟨Code.validate_eq_ok_iff.mpr he.program.valid, hlength.1, hlength.2,
    he.program.capacity, ?_, ?_, ?_⟩
  · intro i h hi
    have hzero := he.program.spare i hi
    rwa [Array.getD_eq_getD_getElem?, Array.getElem?_eq_getElem h] at hzero
  · exact fun c g' => capacity_le_call speed c g' e
  · intro registers g'
    have hle := length_mutate_le he speed registers g'
    constructor
    · intro hshort
      omega
    · intro hlong
      omega

/-- Sixteen slots, as many as a fresh buffer has room for. -/
def crowded : Program := ⟨(List.replicate 16 [14, 0, 0, 0]).flatten.toArray, 64⟩

theorem obtained_crowded : Obtained crowded := by
  have hwords : Program.ofWords crowded.code = .ok crowded := by cbv
  exact .built (.ofWords hwords)

/-- Words that make an edit of the sixteen slots append one. -/
def appending : Replay := Replay.ofScript [0, 8905324725239093884, 1073741824]

/-- A slot is appended to the sixteen, which doubles the buffer, and then taken away. -/
def crowdedUndone : Editor :=
  (Call.runAll (call 1) [.mutate 8, .rollback] (ofProgram crowded) appending).2.1

theorem representation_crowdedUndone : Obtained crowded ∧
    crowdedUndone.program.length = 64 ∧ crowdedUndone.program.capacity = 128 ∧
      crowdedUndone.program.validate = .ok () ∧
      ∀ i (h : i < crowdedUndone.program.code.size), 64 ≤ i →
        crowdedUndone.program.code[i] = 0 := by
  have hlength : crowdedUndone.program.length = 64 := by decide +kernel
  have hcapacity : crowdedUndone.program.capacity = 128 := by decide +kernel
  obtain ⟨hvalid, -, -, -, hspare, -⟩ := representation_of_calls obtained_crowded 1
    [.mutate 8, .rollback] appending
  refine ⟨obtained_crowded, hlength, hcapacity, hvalid, fun i h hi => ?_⟩
  exact hspare i h (hlength.trans_le hi)

end

end Editor

end BytecodeSearch
