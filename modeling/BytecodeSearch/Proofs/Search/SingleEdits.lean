import BytecodeSearch.Proofs.Search.Canonical

/-!
# What one edit does

An edit writes one slot and leaves all other words of the buffer alone (`Program.Writes`). Which slots
it may write is said here word by word (`Slot.IsInstruction`); it comes to the same as being canonical
(`Slot.isCanonical_iff_isInstruction`). Every edit that a generator draws is of this kind, for programs
of any length, and every place and slot of this kind may be drawn (`Editor.writes_of_mutate`).
-/

set_option autoImplicit false

namespace BytecodeSearch

namespace Slot

/-! ## Instructions, word by word -/

/-- The slot at `pos` holds an instruction: a known opcode, register operands below `registers`, jump
targets that are slot boundaries behind `pos` and at most `last`, and zeros behind the operands. -/
structure IsInstruction (pos last registers : Nat) (s : Slot) (op : Opcode) : Prop where
  /-- The opcode word is that of the instruction. -/
  opcode : Opcode.ofWord? s.opcode = some op
  /-- Registers are in use. -/
  register : ∀ k, op.layout[k]? = some .register → (s.args.getD k 0).toNat < registers
  /-- Jumps lead to a later slot boundary, and not past `last`. -/
  target : ∀ k, op.layout[k]? = some .target → (s.args.getD k 0).toNat % slotWidth = 0 ∧
    pos < (s.args.getD k 0).toNat ∧ (s.args.getD k 0).toNat ≤ last
  /-- Words that are not used are zero. -/
  unused : ∀ k, op.layout.length ≤ k → s.args.getD k 0 = 0

/-- Kinds related to the words at the front of a list, place by place. -/
theorem forall₂_take_iff {R : OperandKind → Word → Prop} {kinds : List OperandKind}
    {ws : List Word} (h : kinds.length ≤ ws.length) :
    List.Forall₂ R kinds (ws.take kinds.length) ↔
      ∀ k kind, kinds[k]? = some kind → R kind (ws.getD k 0) := by
  induction kinds generalizing ws with
  | nil => simp
  | cons first kinds ih =>
      obtain ⟨w, ws, rfl⟩ := List.exists_cons_of_length_pos (Nat.lt_of_lt_of_le (Nat.succ_pos _) h)
      rw [List.length_cons, List.take_succ_cons, List.forall₂_cons, ih (Nat.le_of_succ_le_succ h)]
      constructor
      · rintro ⟨hfirst, hrest⟩ k kind hk
        cases k with
        | zero =>
            obtain rfl := Option.some.inj hk
            exact hfirst
        | succ k => exact hrest k kind hk
      · intro hall
        exact ⟨hall 0 first rfl, fun k kind hk => hall (k + 1) kind hk⟩

/-- Clearing changes nothing exactly if the words that are not used are zero. -/
theorem cleared_eq_self_iff {s : Slot} {op : Opcode} (hop : Opcode.ofWord? s.opcode = some op) :
    s.cleared op = s ↔ ∀ k, op.layout.length ≤ k → s.args.getD k 0 = 0 := by
  constructor
  · intro h k hk
    have hlayout := op.length_layout_le
    -- the word of the cleared slot is zero, and there are three words at most
    rw [← h]
    match k, hk with
    | 0, hk => exact (getD_take_args s op 0).trans (if_neg (Nat.not_lt.mpr hk))
    | 1, hk => exact (getD_take_args s op 1).trans (if_neg (Nat.not_lt.mpr hk))
    | 2, hk => exact (getD_take_args s op 2).trans (if_neg (Nat.not_lt.mpr hk))
    | k + 3, _ => rfl
  · intro h
    have hkeep : ∀ k, (s.args.take op.layout.length)[k]?.getD 0 = s.args.getD k 0 := by
      intro k
      rw [getD_take_args]
      by_cases hk : k < op.layout.length
      · rw [if_pos hk]
      · rw [if_neg hk, h k (Nat.not_lt.mp hk)]
    rw [cleared, ofArgs, hkeep, hkeep, hkeep, ← Opcode.ofWord?_eq_some_iff.mp hop]
    rfl

/-- The slots that edits may write are the instructions in reach. -/
theorem isCanonical_iff_isInstruction {pos last registers : Nat} {s : Slot} :
    s.IsCanonical pos last registers ↔ ∃ op, s.IsInstruction pos last registers op := by
  have hfits : ∀ op : Opcode, op.layout.length ≤ s.args.length := Opcode.length_layout_le
  rw [isCanonical_iff]
  refine exists_congr fun op => ?_
  rw [forall₂_take_iff (hfits op)]
  constructor
  · rintro ⟨hop, hcleared, hargs⟩
    exact ⟨hop, fun k hk => hargs k .register hk, fun k hk => hargs k .target hk,
      (cleared_eq_self_iff hop).mp hcleared⟩
  · rintro ⟨hop, hregister, htarget, hunused⟩
    refine ⟨hop, (cleared_eq_self_iff hop).mpr hunused, fun k kind hk => ?_⟩
    cases kind with
    | register => exact hregister k hk
    | immediate => trivial
    | target => exact htarget k hk

end Slot

/-! ## One slot is written -/

/-- The program `q` is `p` with the slot `s` written at `pos`, as an edit with so many registers may do
it: behind the last slot of `p`, if `p` is empty or jumps can reach the new end, or over one of its
slots. No other word of the buffer changes, and new ones are zero. -/
structure Program.Writes (registers : Nat) (p : Program) (pos : Nat) (s : Slot) (q : Program) :
    Prop where
  /-- A slot is appended, or one is written over. -/
  place : Edit.IsPlace p.length pos q.length
  /-- The place is a slot boundary. -/
  aligned : pos % slotWidth = 0
  /-- The buffer does not shrink. -/
  size_le : p.code.size ≤ q.code.size
  /-- Words outside the slot stay as they are. -/
  others : ∀ i, i < pos ∨ pos + slotWidth ≤ i → q.code.getD i 0 = p.code.getD i 0
  /-- The slot is there. -/
  written : Slot.read q.code pos = s
  /-- It holds an instruction whose jumps reach the new end at most. -/
  instruction : ∃ op, s.IsInstruction pos (min q.length Program.maxLength) registers op

namespace Editor

variable {e : Editor}

/-- Applying a legal edit writes its slot. -/
theorem writes_apply {edit : Edit} {registers : Nat}
    (hedit : edit.IsLegal e.program.length registers) :
    e.program.Writes registers edit.pos edit.slot (e.apply edit).program where
  place := hedit.place
  aligned := hedit.aligned
  size_le := Program.size_le_size_write _ _ _ _
  others := by
    intro i hi
    refine (Program.getD_write e.program edit.pos edit.slot edit.length i).trans (if_neg ?_)
    omega
  written := Program.read_write_self _ _ _ _
  instruction := Slot.isCanonical_iff_isInstruction.mp hedit.slot

/-- **A random edit writes one instruction, and may write any.** Take any sound program, however long,
and any number of registers, of which at least one and at most all are used. Whatever the generator
draws, the edited program is the one before with one slot written, at the place that the edit gives
back. And if every draw may give any number of its range, every such place may be drawn with every such
slot. -/
theorem writes_of_mutate (he : e.program.IsSound) (speed registers : Nat) :
    (∀ (ρ : Type) [Generator ρ] (g : ρ), ∃ s,
      e.program.Writes (Edit.clampRegisters registers) (e.mutate speed registers g).1 s
        (e.mutate speed registers g).2.1.program) ∧
      ∀ pos s length, Edit.IsPlace e.program.length pos length → pos % slotWidth = 0 →
        (∃ op, s.IsInstruction pos (min length Program.maxLength) (Edit.clampRegisters registers)
          op) →
        ∃ edit, (Edit.choose e.program.length speed registers).Possible edit ∧ edit.pos = pos ∧
          (e.apply edit).program.length = length ∧
          e.program.Writes (Edit.clampRegisters registers) pos s (e.apply edit).program := by
  have haligned := he.valid.isLength.1
  constructor
  · intro ρ _ g
    obtain ⟨edit, g', hedit, hmutate⟩ := exists_mutate_eq haligned speed registers g
    rw [hmutate]
    exact ⟨edit.slot, writes_apply hedit⟩
  · intro pos s length hplace hpos hs
    have hedit : Edit.IsLegal e.program.length (Edit.clampRegisters registers) ⟨pos, s, length⟩ :=
      ⟨hplace, hpos, Slot.isCanonical_iff_isInstruction.mpr hs⟩
    exact ⟨⟨pos, s, length⟩, (Edit.possible_choose_iff haligned).mpr hedit, rfl, rfl,
      writes_apply hedit⟩

/-- The next edit of the sixteen slots appends one. Another may turn the last of them into a jump to the
end. -/
theorem writes_crowded : (ofProgram crowded).program.IsSound ∧
    ((ofProgram crowded).mutate 1 8 appending).1 = 64 ∧
    ((ofProgram crowded).mutate 1 8 appending).2.1.program.length = 68 ∧
    ∃ edit, (Edit.choose 64 1 8).Possible edit ∧ edit.pos = 60 ∧
      Slot.read ((ofProgram crowded).apply edit).program.code 60 = ⟨8, 64, 0, 0⟩ := by
  have hsound : (ofProgram crowded).program.IsSound := obtained_crowded.isSound
  have hpos : ((ofProgram crowded).mutate 1 8 appending).1 = 64 := by decide +kernel
  have hjump : ∃ op, Slot.IsInstruction 60 (min 64 Program.maxLength) (Edit.clampRegisters 8)
      ⟨8, 64, 0, 0⟩ op := Slot.isCanonical_iff_isInstruction.mp (by decide)
  obtain ⟨hdrawn, hmay⟩ := writes_of_mutate hsound 1 8
  refine ⟨hsound, hpos, ?_, ?_⟩
  · obtain ⟨s, hwrites⟩ := hdrawn Replay appending
    -- the place is not one of the slots
    rcases hwrites.place with ⟨-, hlength, -⟩ | ⟨hinside, -⟩
    · exact hlength
    · exact absurd (hpos ▸ hinside) (Nat.lt_irrefl 64)
  · obtain ⟨edit, hpossible, hedit, -, hwrites⟩ :=
      hmay 60 ⟨8, 64, 0, 0⟩ 64 (.inr ⟨by decide, rfl⟩) (by decide) hjump
    exact ⟨edit, hpossible, hedit, hwrites.written⟩

end Editor

end BytecodeSearch
