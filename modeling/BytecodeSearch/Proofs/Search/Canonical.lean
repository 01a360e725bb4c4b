import BytecodeSearch.Proofs.Program.Slots
import BytecodeSearch.Proofs.Search.Drafts
import BytecodeSearch.Proofs.Search.Draws

/-!
# What edits can make

The programs that random edits lead to, starting from the empty one, are those whose words are
canonical: there are only so many of them, every slot holds an instruction of the chosen registers with
zeros behind its operands, and every jump leads to a later slot or to the end of the program
(`Code.IsCanonical`).

Whatever is drawn, edited programs stay canonical, because a jump that was in reach when it was drawn
stays so while the program grows, and undoing an edit also undoes the growth
(`Evolved.isCanonical`). For the other direction any canonical words are written slot by slot over a
program that has been grown to their length first, so that every target is in reach when it is drawn
(`exists_evolved_prefix`).
-/

set_option autoImplicit false

namespace BytecodeSearch

/-! ## Canonical code -/

instance (pos last registers : Nat) (w : Word) (kind : OperandKind) :
    Decidable (kind.Admits pos last registers w) :=
  match kind with
  | .register => inferInstanceAs (Decidable (w.toNat < registers))
  | .immediate => inferInstanceAs (Decidable True)
  | .target =>
      inferInstanceAs (Decidable (w.toNat % slotWidth = 0 ∧ pos < w.toNat ∧ w.toNat ≤ last))

/-- A slot is canonical exactly if its opcode is known, all words that are not used are zero, and the
argument words are some that edits may write. -/
theorem Slot.isCanonical_iff {pos last registers : Nat} {s : Slot} :
    s.IsCanonical pos last registers ↔
      ∃ op, Opcode.ofWord? s.opcode = some op ∧ s.cleared op = s ∧
        List.Forall₂ (fun kind w => OperandKind.Admits pos last registers w kind) op.layout
          (s.args.take op.layout.length) := by
  constructor
  · rintro ⟨op, ws, rfl, hargs⟩
    have hlength := hargs.length_eq
    have htake : (ofArgs op ws).args.take op.layout.length = ws := by
      rw [args_ofArgs op (hlength ▸ op.length_layout_le), hlength, List.take_left]
    refine ⟨op, Opcode.ofWord?_word op, ?_, ?_⟩
    · rw [cleared, htake]
    · rwa [htake]
  · rintro ⟨op, -, hcleared, hargs⟩
    exact ⟨op, _, hcleared.symm, hargs⟩

instance (pos last registers : Nat) (s : Slot) : Decidable (s.IsCanonical pos last registers) :=
  decidable_of_iff
    ((Opcode.ofWord? s.opcode).any fun op => decide (s.cleared op = s ∧
      List.Forall₂ (fun kind w => OperandKind.Admits pos last registers w kind) op.layout
        (s.args.take op.layout.length)))
    (by rw [Slot.isCanonical_iff]; simp [Option.any_eq_true])

theorem Slot.IsCanonical.mono {pos last last' registers : Nat} {s : Slot}
    (h : s.IsCanonical pos last registers) (hle : last ≤ last') :
    s.IsCanonical pos last' registers := by
  obtain ⟨op, ws, rfl, hargs⟩ := h
  refine ⟨op, ws, rfl, hargs.imp fun kind w hw => ?_⟩
  cases kind with
  | target => exact ⟨hw.1, hw.2.1, Nat.le_trans hw.2.2 hle⟩
  | register | immediate => exact hw

/-- A slot of zeros copies a zero to the first register. -/
theorem Slot.isCanonical_zero {pos last registers : Nat} (hregisters : 0 < registers) :
    Slot.zero.IsCanonical pos last registers :=
  ⟨.set, [0, 0], rfl, .cons trivial (.cons hregisters .nil)⟩

/-- The first `length` words of the code are whole slots that edits with `registers` registers may
write, and jumps can reach their end. -/
structure Code.IsCanonical (registers : Nat) (code : Array Word) (length : Nat) : Prop where
  /-- The end is a target. -/
  length_le : length ≤ Program.maxLength
  /-- The slots are whole. -/
  aligned : length % slotWidth = 0
  /-- Their jumps lead to a later slot or to the end. -/
  slots : ∀ pos < length, pos % slotWidth = 0 →
    (Slot.read code pos).IsCanonical pos length registers

namespace Code

variable {registers length : Nat} {code code' : Array Word}

instance (registers : Nat) (code : Array Word) (length : Nat) :
    Decidable (IsCanonical registers code length) :=
  decidable_of_iff
    (length ≤ Program.maxLength ∧ length % slotWidth = 0 ∧ ∀ pos < length, pos % slotWidth = 0 →
      (Slot.read code pos).IsCanonical pos length registers)
    ⟨fun h => ⟨h.1, h.2.1, h.2.2⟩, fun h => ⟨h.length_le, h.aligned, h.slots⟩⟩

theorem isCanonical_empty (registers : Nat) (code : Array Word) : IsCanonical registers code 0 :=
  ⟨Nat.zero_le _, Nat.zero_mod _, fun _ hlt _ => absurd hlt (Nat.not_lt_zero _)⟩

theorem IsCanonical.congr (h : IsCanonical registers code length)
    (hsame : ∀ pos < length, pos % slotWidth = 0 → Slot.read code pos = Slot.read code' pos) :
    IsCanonical registers code' length := by
  refine ⟨h.length_le, h.aligned, fun pos hlt hpos => ?_⟩
  rw [← hsame pos hlt hpos]
  exact h.slots pos hlt hpos

end Code

namespace Program

/-- The program and its words have the same slots. -/
theorem IsSound.read_words {p : Program} (hp : p.IsSound) (pos : Nat) :
    Slot.read p.words pos = Slot.read p.code pos :=
  read_congr fun i _ _ => hp.getD_words i

/-- The words of a program are some words if it is as long and has the same slots. -/
theorem IsSound.words_eq_of_slots {p : Program} {ws : Array Word} (hp : p.IsSound)
    (hlength : p.length = ws.size)
    (h : ∀ pos < ws.size, pos % slotWidth = 0 → Slot.read p.code pos = Slot.read ws pos) :
    p.words = ws := by
  refine hp.words_ext hlength.symm fun i => ?_
  by_cases hi : i < ws.size
  · exact getD_eq_of_slots h hi
  · rw [hp.spare i (hlength ▸ Nat.le_of_not_lt hi), getD_eq_zero_of_size_le (Nat.le_of_not_lt hi)]

end Program

namespace Editor

variable {speed registers : Nat} {e : Editor} {edit : Edit}

/-! ## Calls keep programs canonical -/

/-- An editor whose program is canonical, and the one that undoing would bring back is so too. -/
structure IsCanonical (registers : Nat) (e : Editor) : Prop extends e.IsSound where
  words : Code.IsCanonical registers e.program.code e.program.length
  wordsUndone : Code.IsCanonical registers e.rollback.1.program.code e.rollback.1.program.length

theorem isCanonical_empty (registers : Nat) : IsCanonical registers (ofProgram Program.empty) where
  program := Program.isSound_empty
  undone := Program.isSound_empty
  words := Code.isCanonical_empty _ _
  wordsUndone := Code.isCanonical_empty _ _

/-- A legal edit of a canonical program gives a canonical one: if it grows, jumps stay in reach. -/
theorem isCanonical_words_apply (he : Code.IsCanonical registers e.program.code e.program.length)
    (hedit : edit.IsLegal e.program.length registers) :
    Code.IsCanonical registers (e.apply edit).program.code (e.apply edit).program.length := by
  have haligned := he.aligned
  have hle := he.length_le
  have hplace := hedit.place
  have hgrown : e.program.length ≤ edit.length ∧ edit.length ≤ Program.maxLength ∧
      edit.length % slotWidth = 0 := by
    simp only [Edit.IsPlace, slotWidth, Program.maxLength] at *
    omega
  refine ⟨hgrown.2.1, hgrown.2.2, fun pos hlt hpos => ?_⟩
  by_cases hwritten : pos = edit.pos
  · have hslot := hedit.slot
    rw [Nat.min_eq_left hgrown.2.1] at hslot
    subst hwritten
    exact (Program.read_write_self e.program edit.pos edit.slot edit.length).symm ▸ hslot
  · -- a slot that was there, whose jumps reach no further than the old end
    have hold : pos < e.program.length := by
      have hlt : pos < edit.length := hlt
      simp only [Edit.IsPlace, slotWidth] at *
      omega
    have hsame : Slot.read (e.apply edit).program.code pos = Slot.read e.program.code pos :=
      Program.read_write_ne e.program edit.slot edit.length hedit.aligned hpos hwritten
    rw [hsame]
    exact (he.slots pos hold hpos).mono hgrown.1

theorem isCanonical_apply (he : e.IsCanonical registers)
    (hedit : edit.IsLegal e.program.length registers) (hregisters : registers ≤ registerCount) :
    (e.apply edit).IsCanonical registers where
  toIsSound := isSound_apply he.program hedit hregisters
  words := isCanonical_words_apply he.words hedit
  wordsUndone := by
    rw [length_rollback_apply]
    exact he.words.congr fun pos hlt hpos =>
      (read_rollback_apply_of_lt he.program.valid hedit.aligned hlt hpos).symm

theorem isCanonical_rollback (he : e.IsCanonical registers) : e.rollback.1.IsCanonical registers where
  program := he.undone
  undone := by
    rw [rollback_rollback]
    exact he.undone
  words := he.wordsUndone
  wordsUndone := by
    rw [rollback_rollback]
    exact he.wordsUndone

theorem isCanonical_commit (he : e.IsCanonical registers) : e.commit.IsCanonical registers :=
  ⟨⟨he.program, he.program⟩, he.words, he.words⟩

/-! ## What calls lead to -/

/-- The editors that calls with so many registers lead to, from the empty program, if every draw may
give any number of its range. -/
inductive Evolved (speed registers : Nat) : Editor → Prop where
  | start : Evolved speed registers (ofProgram Program.empty)
  | mutate {e : Editor} {edit : Edit} (h : Evolved speed registers e)
      (drawn : (Edit.choose e.program.length speed registers).Possible edit) :
      Evolved speed registers (e.apply edit)
  | rollback {e : Editor} (h : Evolved speed registers e) : Evolved speed registers e.rollback.1
  | commit {e : Editor} (h : Evolved speed registers e) : Evolved speed registers e.commit

theorem Evolved.isCanonical (h : Evolved speed registers e) :
    e.IsCanonical (Edit.clampRegisters registers) := by
  induction h with
  | start => exact isCanonical_empty _
  | mutate _ drawn ih =>
      exact isCanonical_apply ih ((Edit.possible_choose_iff ih.words.aligned).mp drawn)
        (Edit.clampRegisters_le registers)
  | rollback _ ih => exact isCanonical_rollback ih
  | commit _ ih => exact isCanonical_commit ih

/-- Calls that draw from a generator lead to such an editor. -/
theorem Evolved.runAll {ρ : Type} [Generator ρ] (he : Evolved speed registers e) {cs : List Call}
    (hcs : ∀ k, Call.mutate k ∈ cs → k = registers) (g : ρ) :
    Evolved speed registers (Call.runAll (call speed) cs e g).2.1 := by
  induction cs generalizing e g with
  | nil => exact he
  | cons c cs ih =>
      refine ih ?_ (fun k hk => hcs k (List.mem_cons_of_mem c hk)) _
      cases c with
      | mutate k =>
          obtain rfl := hcs k List.mem_cons_self
          have hdrawn := Edit.ensures_choose he.isCanonical.words.aligned speed k
          exact he.mutate (hdrawn.possible_run g)
      | rollback => exact he.rollback
      | commit => exact he.commit

theorem Evolved.apply (he : Evolved speed registers e)
    (hedit : edit.IsLegal e.program.length (Edit.clampRegisters registers)) :
    Evolved speed registers (e.apply edit) :=
  he.mutate ((Edit.possible_choose_iff he.isCanonical.words.aligned).mpr hedit)

/-! ## Making given words -/

/-- A program can be grown to any number of slots that jumps can reach the end of. -/
theorem exists_evolved_length (speed registers : Nat) {n : Nat}
    (hn : slotWidth * n ≤ Program.maxLength) :
    ∃ e, Evolved speed registers e ∧ e.program.length = slotWidth * n := by
  induction n with
  | zero => exact ⟨_, .start, rfl⟩
  | succ n ih =>
      rw [Nat.mul_succ] at hn ⊢
      obtain ⟨e, he, hlength⟩ := ih (Nat.le_of_add_right_le hn)
      have hedit : Edit.IsLegal e.program.length (Edit.clampRegisters registers)
          ⟨e.program.length, Slot.zero, e.program.length + slotWidth⟩ :=
        ⟨.inl ⟨rfl, rfl, .inr (hlength ▸ hn)⟩, he.isCanonical.words.aligned,
          Slot.isCanonical_zero (Edit.clampRegisters_pos registers)⟩
      exact ⟨_, he.apply hedit, congrArg (· + slotWidth) hlength⟩

/-- Slot after slot of canonical words can be written over a program that is as long as they are. -/
theorem exists_evolved_prefix {ws : Array Word}
    (hws : Code.IsCanonical (Edit.clampRegisters registers) ws ws.size) (speed : Nat) {k : Nat}
    (hk : slotWidth * k ≤ ws.size) :
    ∃ e, Evolved speed registers e ∧ e.program.length = ws.size ∧
      ∀ pos < slotWidth * k, pos % slotWidth = 0 →
        Slot.read e.program.code pos = Slot.read ws pos := by
  induction k with
  | zero =>
      obtain ⟨n, hn⟩ := Nat.dvd_of_mod_eq_zero hws.aligned
      obtain ⟨e, he, hlength⟩ := exists_evolved_length speed registers (hn ▸ hws.length_le)
      refine ⟨e, he, hlength.trans hn.symm, fun pos hlt _ => ?_⟩
      exact absurd hlt (Nat.not_lt_zero pos)
  | succ k ih =>
      rw [Nat.mul_succ] at hk
      obtain ⟨e, he, hlength, hslots⟩ := ih (Nat.le_of_add_right_le hk)
      -- slot number `k` is written over what is there; the others stay as they are
      have hlt : slotWidth * k < ws.size :=
        Nat.lt_of_lt_of_le (Nat.lt_add_of_pos_right (by decide)) hk
      have hedit : Edit.IsLegal e.program.length (Edit.clampRegisters registers)
          ⟨slotWidth * k, Slot.read ws (slotWidth * k), e.program.length⟩ := by
        refine ⟨.inr ⟨hlength.symm ▸ hlt, rfl⟩, Nat.mul_mod_right _ _, ?_⟩
        simp only [hlength, Nat.min_eq_left hws.length_le]
        exact hws.slots _ hlt (Nat.mul_mod_right _ _)
      refine ⟨_, he.apply hedit, hlength, fun pos hpos haligned => ?_⟩
      by_cases hwritten : pos = slotWidth * k
      · subst hwritten
        exact Program.read_write_self _ _ _ _
      · have hbefore : pos < slotWidth * k := by
          simp only [slotWidth] at *
          omega
        exact (Program.read_write_ne e.program _ _ (Nat.mul_mod_right _ _) haligned hwritten).trans
          (hslots pos hbefore haligned)

/-- **The programs that edits can make are the canonical ones.** If every draw may give any number of
its range, then some words are those of a program that calls lead to, from the empty program and with
any speed, exactly if they are canonical: at most so many that jumps can reach their end, in whole
slots, each of them with a known opcode, registers that are in use, zeros where no argument is, and a
target that is a later slot or the end. -/
theorem exists_evolved_words_iff (hpos : 0 < registers) (hle : registers ≤ registerCount)
    (speed : Nat) (ws : Array Word) :
    (∃ e, Evolved speed registers e ∧ e.program.words = ws) ↔
      Code.IsCanonical registers ws ws.size := by
  have hclamp : Edit.clampRegisters registers = registers := by
    simp only [Edit.clampRegisters]
    omega
  constructor
  · rintro ⟨e, he, rfl⟩
    have hcanonical := he.isCanonical
    rw [hclamp] at hcanonical
    rw [hcanonical.program.size_words]
    exact hcanonical.words.congr fun pos _ _ => (hcanonical.program.read_words pos).symm
  · intro hws
    obtain ⟨n, hn⟩ := Nat.dvd_of_mod_eq_zero hws.aligned
    have hclamped : Code.IsCanonical (Edit.clampRegisters registers) ws ws.size := by rwa [hclamp]
    obtain ⟨e, he, hlength, hslots⟩ := exists_evolved_prefix hclamped speed hn.symm.le
    refine ⟨e, he, he.isCanonical.program.words_eq_of_slots hlength fun pos hlt => ?_⟩
    exact hslots pos (hn ▸ hlt)

/-- A jump over the only slot behind it can be made; one that leads past the end, though it is valid,
cannot. -/
theorem exists_evolved_jump : (0 < 1 ∧ 1 ≤ registerCount) ∧
    (∃ e, Evolved 1 1 e ∧ e.program.words = #[8, 8, 0, 0, 2, 0, 0, 0]) ∧
      ¬ ∃ e, Evolved 1 1 e ∧ e.program.words = #[8, 8, 0, 0] := by
  have hregisters : 0 < 1 ∧ 1 ≤ registerCount := by decide
  refine ⟨hregisters, ?_, ?_⟩
  · rw [exists_evolved_words_iff hregisters.1 hregisters.2]
    decide
  · rw [exists_evolved_words_iff hregisters.1 hregisters.2]
    decide

end Editor

end BytecodeSearch
