import BytecodeSearch.Proofs.Machine.Calls
import BytecodeSearch.Proofs.Random.Ensures
import BytecodeSearch.Search.Edit
import Mathlib.Data.List.Forall2

/-!
# Edits are legal

`Edit.IsLegal` says what an edit may do to a program of a given length: where it writes, and which
slots (`Slot.IsCanonical`). Whatever the generator, `Edit.choose` draws legal edits
(`ensures_choose`), and a legal edit of a valid program gives a valid program (`isValid_apply`).
Undoing it brings back the slots that were there (`read_rollback_apply`).
-/

set_option autoImplicit false

namespace BytecodeSearch

/-! ## Slots that edits write -/

/-- Whether an edit may write an argument word of this kind into the slot at `pos`, when it uses
`registers` registers and its jumps reach at most `last`. -/
def OperandKind.Admits (pos last registers : Nat) (w : Word) : OperandKind → Prop
  | register => w.toNat < registers
  | immediate => True
  | target => w.toNat % slotWidth = 0 ∧ pos < w.toNat ∧ w.toNat ≤ last

namespace Slot

/-- A slot at `pos` that holds an instruction with argument words an edit may write, and zeros
behind them. -/
def IsCanonical (pos last registers : Nat) (s : Slot) : Prop :=
  ∃ op ws, s = ofArgs op ws ∧
    List.Forall₂ (fun kind w => OperandKind.Admits pos last registers w kind) op.layout ws

theorem check_of_admits {pos last registers : Nat} {w : Word} {kind : OperandKind}
    (hregisters : registers ≤ registerCount) (h : kind.Admits pos last registers w) :
    kind.check pos w = .ok () := by
  cases kind with
  | immediate => rfl
  | register =>
      have hw : w.toNat < 8 := Nat.lt_of_lt_of_le h hregisters
      simp [OperandKind.check, Reg.read, Reg.ofWord?, hw, Except.map]
  | target =>
      obtain ⟨haligned, hforward, -⟩ := h
      simp [OperandKind.check, Target.read, haligned, hforward, Except.map]

theorem checkArgs_append {pos last registers : Nat} {kinds : List OperandKind} {ws : List Word}
    (hregisters : registers ≤ registerCount)
    (h : List.Forall₂ (fun kind w => OperandKind.Admits pos last registers w kind) kinds ws)
    (more : List Word) : checkArgs pos kinds (ws ++ more) = .ok () := by
  induction h with
  | nil => cases more <;> rfl
  | cons hw _ ih =>
      simp only [List.cons_append, checkArgs, check_of_admits hregisters hw]
      exact ih

/-- What an edit may write passes the check. -/
theorem IsCanonical.check {pos last registers : Nat} {s : Slot}
    (h : s.IsCanonical pos last registers) (hregisters : registers ≤ registerCount) :
    ∃ op, s.check pos = .ok op := by
  obtain ⟨op, ws, rfl, hargs⟩ := h
  have hlen : ws.length ≤ 3 := by
    rw [← hargs.length_eq]
    exact op.length_layout_le
  have hop : Opcode.ofWord? (ofArgs op ws).opcode = some op := Opcode.ofWord?_word op
  refine ⟨op, ?_⟩
  simp only [Slot.check, hop]
  rw [args_ofArgs op hlen, checkArgs_append hregisters hargs]
  rfl

end Slot

namespace Edit

/-! ## What is drawn -/

/-- An edit of a program of `length` words may write behind the last slot, if jumps can reach the
new end, or over one of the slots. -/
def IsPlace (length pos newLength : Nat) : Prop :=
  pos = length ∧ newLength = length + slotWidth ∧
      (length = 0 ∨ length + slotWidth ≤ Program.maxLength) ∨
    pos < length ∧ newLength = length

/-- What an edit of a program of `length` words may be. -/
structure IsLegal (length registers : Nat) (e : Edit) : Prop where
  /-- It writes where an edit may write. -/
  place : IsPlace length e.pos e.length
  /-- It writes at a slot boundary. -/
  aligned : e.pos % slotWidth = 0
  /-- It writes an instruction whose jumps reach the end of the program at most. -/
  slot : e.slot.IsCanonical e.pos (min e.length Program.maxLength) registers

theorem IsPlace.pos_le {length pos newLength : Nat} (h : IsPlace length pos newLength) :
    pos ≤ length := by
  rcases h with ⟨hpos, -⟩ | ⟨hpos, -⟩
  · exact Nat.le_of_eq hpos
  · exact Nat.le_of_lt hpos

/-- An edit of a program that jumps can reach the end of has room for a jump. -/
theorem IsPlace.room {length pos newLength : Nat} (h : IsPlace length pos newLength)
    (hlength : length % slotWidth = 0) (hpos : pos % slotWidth = 0)
    (hreach : length ≤ Program.maxLength) : pos + slotWidth ≤ min newLength Program.maxLength := by
  rcases h with ⟨rfl, rfl, hgrows⟩ | ⟨hinside, rfl⟩
  · simp only [slotWidth, Program.maxLength] at *
    omega
  · simp only [slotWidth, Program.maxLength] at *
    omega

theorem ensures_choosePlaceInside {length : Nat} (h : 0 < length / slotWidth) :
    (choosePlaceInside length).Ensures fun place =>
      IsPlace length place.1 place.2 ∧ place.1 % slotWidth = 0 := by
  refine (Choice.ensures_number (r := .large (length / slotWidth)) h).bind fun i hi => ?_
  have hi : i < length / slotWidth := hi
  have hlt : i * slotWidth < length := by
    simp only [slotWidth] at hi ⊢
    omega
  exact Choice.ensures_pure ⟨.inr ⟨hlt, rfl⟩, Nat.mul_mod_left i slotWidth⟩

theorem ensures_choosePlace {length speed : Nat} (hlength : length % slotWidth = 0)
    (hspeed : 0 < speed) :
    (choosePlace length speed).Ensures fun place =>
      IsPlace length place.1 place.2 ∧ place.1 % slotWidth = 0 := by
  unfold choosePlace
  by_cases hempty : length / slotWidth = 0
  · rw [if_pos hempty]
    -- an empty program grows without a draw
    have hzero : length = 0 := by
      simp only [slotWidth] at hempty hlength
      omega
    exact Choice.ensures_pure ⟨.inl ⟨rfl, rfl, .inl hzero⟩, hlength⟩
  · rw [if_neg hempty]
    have hpos : 0 < length / slotWidth := Nat.pos_of_ne_zero hempty
    -- without room behind the last slot there is no draw whether to grow
    by_cases hroom : length + slotWidth ≤ Program.maxLength
    · rw [if_pos hroom]
      have hrange : 0 < (Range.large (length * speed)).size :=
        Nat.mul_pos (Nat.pos_of_div_pos hpos) hspeed
      refine (Choice.ensures_number hrange).bind fun v _ => ?_
      by_cases hv : v = 0
      · rw [if_pos hv]
        exact Choice.ensures_pure ⟨.inl ⟨rfl, rfl, .inr hroom⟩, hlength⟩
      · rw [if_neg hv]
        exact ensures_choosePlaceInside hpos
    · rw [if_neg hroom]
      exact ensures_choosePlaceInside hpos

theorem ensures_chooseOpcode (canJump : Bool) (tries : Nat) :
    (chooseOpcode canJump tries).Ensures fun op => op.isJump = true → canJump = true := by
  induction tries with
  | zero =>
      -- a draw that is given up stands for `set`, which does not jump
      exact Choice.ensures_pure fun h => absurd h (by decide)
  | succ tries ih =>
      refine (Choice.ensures_number (r := .large Opcode.count) (by decide)).bind fun i _ => ?_
      simp only
      split
      · exact ih
      · rename_i hkeep
        exact Choice.ensures_pure fun hjump => by simpa only [hjump, Bool.true_and,
          Bool.not_eq_true', Bool.not_eq_false] using hkeep

theorem ensures_chooseArg {pos last registers : Nat} {kind : OperandKind}
    (hregisters : 0 < registers) (hfits : registers ≤ registerCount)
    (hlast : last ≤ Program.maxLength) (hpos : pos % slotWidth = 0)
    (hjump : kind = .target → pos + slotWidth ≤ last) :
    (chooseArg pos last registers kind).Ensures fun w => kind.Admits pos last registers w := by
  cases kind with
  | register =>
      refine (Choice.ensures_number (r := .small registers) hregisters).bind fun v hv => ?_
      have hv : v < registers := hv
      have hsmall : v < 2 ^ 16 := by
        simp only [registerCount] at hfits
        omega
      refine Choice.ensures_pure ?_
      simp only [OperandKind.Admits, UInt16.toNat_ofNat_of_lt' hsmall]
      exact hv
  | immediate =>
      exact (Choice.ensures_number (r := .word) (by decide)).bind fun _ _ =>
        Choice.ensures_pure trivial
  | target =>
      have hroom := hjump rfl
      have hrange : 0 < (Range.large ((last - pos) / slotWidth)).size := by
        simp only [Range.size, slotWidth] at *
        omega
      refine (Choice.ensures_number hrange).bind fun k hk => Choice.ensures_pure ?_
      have hk : k < (last - pos) / slotWidth := hk
      -- the target is at most `last`, so it is not cut off by the sixteen bits of a word
      have hsmall : pos + (k + 1) * slotWidth < 2 ^ 16 := by
        simp only [slotWidth, Program.maxLength] at *
        omega
      simp only [OperandKind.Admits, UInt16.toNat_ofNat_of_lt' hsmall]
      simp only [slotWidth] at *
      omega

theorem ensures_chooseArgs {pos last registers : Nat} {kinds : List OperandKind}
    (hregisters : 0 < registers) (hfits : registers ≤ registerCount)
    (hlast : last ≤ Program.maxLength) (hpos : pos % slotWidth = 0)
    (hjump : .target ∈ kinds → pos + slotWidth ≤ last) :
    (chooseArgs pos last registers kinds).Ensures fun ws =>
      List.Forall₂ (fun kind w => OperandKind.Admits pos last registers w kind) kinds ws := by
  induction kinds with
  | nil => exact Choice.ensures_pure .nil
  | cons kind kinds ih =>
      refine (ensures_chooseArg hregisters hfits hlast hpos fun hkind =>
        hjump (hkind ▸ List.mem_cons_self)).bind fun w hw => ?_
      refine (ih fun hmem => hjump (List.mem_cons_of_mem _ hmem)).bind fun ws hws => ?_
      exact Choice.ensures_pure (.cons hw hws)

theorem ensures_chooseSlot {pos length registers : Nat} (hregisters : 0 < registers)
    (hfits : registers ≤ registerCount) (hpos : pos % slotWidth = 0) :
    (chooseSlot pos length registers).Ensures fun s =>
      s.IsCanonical pos (min length Program.maxLength) registers := by
  refine (ensures_chooseOpcode _ patience).bind fun op hop => ?_
  refine (ensures_chooseArgs hregisters hfits (Nat.min_le_right _ _) hpos fun hmem => ?_).bind
    fun ws hws => Choice.ensures_pure ⟨op, ws, rfl, hws⟩
  have hjump : op.isJump = true := List.contains_iff_mem.mpr hmem
  exact of_decide_eq_true (hop hjump)

theorem clampRegisters_pos (count : Nat) : 0 < clampRegisters count :=
  Nat.le_max_left 1 _

theorem clampRegisters_le (count : Nat) : clampRegisters count ≤ registerCount :=
  Nat.max_le.mpr ⟨by decide, Nat.min_le_right _ _⟩

/-- **Every draw gives a legal edit**, and no draw is from an empty range. -/
theorem ensures_choose {length : Nat} (hlength : length % slotWidth = 0) (speed registers : Nat) :
    (choose length speed registers).Ensures (IsLegal length (clampRegisters registers)) := by
  refine (ensures_choosePlace hlength (Nat.le_max_right speed 1)).bind fun ⟨pos, newLength⟩ h => ?_
  obtain ⟨hplace, haligned⟩ := h
  refine (ensures_chooseSlot (clampRegisters_pos registers) (clampRegisters_le registers)
    haligned).bind fun s hs => ?_
  exact Choice.ensures_pure ⟨hplace, haligned, hs⟩

end Edit

namespace Editor

variable {e : Editor} {edit : Edit} {registers : Nat}

/-! ## Applying edits -/

/-- A legal edit of a valid program gives a valid program. -/
theorem isValid_apply (he : Code.IsValid e.program.code e.program.length)
    (hedit : edit.IsLegal e.program.length registers) (hregisters : registers ≤ registerCount) :
    Code.IsValid (e.apply edit).program.code (e.apply edit).program.length := by
  refine Program.isValid_write he hedit.aligned ?_ (hedit.slot.check hregisters)
  rcases hedit.place with ⟨hpos, hlength, -⟩ | hinside
  · exact .inr ⟨hpos, hlength⟩
  · exact .inl hinside

/-- An edit drawn from a generator is legal. -/
theorem exists_mutate_eq {ρ : Type} [Generator ρ] (he : e.program.length % slotWidth = 0)
    (speed registers : Nat) (g : ρ) :
    ∃ edit g', edit.IsLegal e.program.length (Edit.clampRegisters registers) ∧
      e.mutate speed registers g = (edit.pos, e.apply edit, g') := by
  refine ⟨_, ((Edit.choose e.program.length speed registers).run g).2,
    (Edit.ensures_choose he speed registers).run g, ?_⟩
  rw [mutate]

/-! ## Undoing them -/

theorem length_rollback_apply (e : Editor) (edit : Edit) :
    (e.apply edit).rollback.1.program.length = e.program.length := by
  simp only [rollback, apply, Program.write]

theorem size_le_size_rollback_apply (e : Editor) (edit : Edit) :
    e.program.code.size ≤ (e.apply edit).rollback.1.program.code.size := by
  simp only [rollback, apply]
  exact Nat.le_trans (Program.size_le_size_write _ _ _ _) (Program.size_le_size_write _ _ _ _)

/-- Undoing an edit brings back every slot of the buffer as it was. -/
theorem read_rollback_apply (e : Editor) {edit : Edit} {q : Nat} (hpos : edit.pos % slotWidth = 0)
    (hq : q % slotWidth = 0) (hfits : q + slotWidth ≤ e.program.code.size) :
    Slot.read (e.apply edit).rollback.1.program.code q = Slot.read e.program.code q := by
  simp only [rollback, apply]
  -- both writes are at one place: the slot there is the one remembered, the others never change
  by_cases hqp : q = edit.pos
  · subst hqp
    rw [Program.read_write_self, Program.slot?, if_pos hfits]
    rfl
  · rw [Program.read_write_ne _ _ _ hpos hq hqp, Program.read_write_ne _ _ _ hpos hq hqp]

theorem read_rollback_apply_of_lt (he : Code.IsValid e.program.code e.program.length)
    (hpos : edit.pos % slotWidth = 0) {q : Nat} (hlt : q < e.program.length)
    (hq : q % slotWidth = 0) :
    Slot.read (e.apply edit).rollback.1.program.code q = Slot.read e.program.code q := by
  refine read_rollback_apply e hpos hq ?_
  have hlength := he.isLength
  simp only [Code.IsLength, slotWidth] at *
  omega

theorem isValid_rollback_apply (he : Code.IsValid e.program.code e.program.length)
    (hpos : edit.pos % slotWidth = 0) :
    Code.IsValid (e.apply edit).rollback.1.program.code
      (e.apply edit).rollback.1.program.length := by
  rw [length_rollback_apply]
  constructor
  · exact ⟨he.isLength.1, Nat.le_trans he.isLength.2 (size_le_size_rollback_apply e edit)⟩
  · intro q hlt hq
    rw [read_rollback_apply_of_lt he hpos hlt hq]
    exact he.slots q hlt hq

/-- A program whose edit is undone runs as it did before the edit. -/
theorem execute_rollback_apply (he : Code.IsValid e.program.code e.program.length)
    (hpos : edit.pos % slotWidth = 0) (input : Array Word) (memorySize : Nat) :
    (e.apply edit).rollback.1.program.execute input memorySize =
      e.program.execute input memorySize := by
  -- the buffer may have grown, and the words behind the program may differ: no run looks at them
  refine Program.execute_congr (length_rollback_apply e edit)
    (isValid_rollback_apply he hpos).isLength he.isLength (fun q hlt hq => ?_) input memorySize
  rw [length_rollback_apply] at hlt
  exact read_rollback_apply_of_lt he hpos hlt hq

end Editor

end BytecodeSearch
