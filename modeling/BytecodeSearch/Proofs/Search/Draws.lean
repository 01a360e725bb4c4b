import BytecodeSearch.Proofs.Search.Edits

/-!
# Every legal edit is drawn

What `Edit.choose` draws is legal, and there is nothing legal that it may not draw: each place, each
instruction and each argument word of a legal edit comes from some number of the range that is drawn
from. So the edits that are possible are exactly the legal ones (`possible_choose_iff`).
-/

set_option autoImplicit false

namespace BytecodeSearch.Edit

variable {length speed registers pos last : Nat}

/-! ## Places -/

theorem possible_choosePlaceInside (hlength : length % slotWidth = 0) (hpos : pos % slotWidth = 0)
    (hlt : pos < length) : (choosePlaceInside length).Possible (pos, length) := by
  have hslot : pos / slotWidth < length / slotWidth := by
    simp only [slotWidth] at *
    omega
  have hplace : pos / slotWidth * slotWidth = pos :=
    Nat.div_mul_cancel (Nat.dvd_of_mod_eq_zero hpos)
  refine (Choice.possible_number (r := .large (length / slotWidth)) hslot).bind ?_
  rw [hplace]
  exact Choice.possible_pure _

theorem possible_choosePlace {newLength : Nat} (hlength : length % slotWidth = 0)
    (hspeed : 0 < speed) (hpos : pos % slotWidth = 0) (h : IsPlace length pos newLength) :
    (choosePlace length speed).Possible (pos, newLength) := by
  unfold choosePlace
  by_cases hempty : length / slotWidth = 0
  · -- an empty program has no slot to write over
    have hzero : length = 0 := by
      simp only [slotWidth] at hempty hlength
      omega
    rw [if_pos hempty]
    rcases h with ⟨rfl, rfl, -⟩ | ⟨hinside, -⟩
    · exact Choice.possible_pure _
    · omega
  · rw [if_neg hempty]
    have hslots : slotWidth ≤ length := by
      simp only [slotWidth] at *
      omega
    by_cases hroom : length + slotWidth ≤ Program.maxLength
    · rw [if_pos hroom]
      -- one of the numbers means to grow, and there are others
      have hrange : 1 < (Range.large (length * speed)).size :=
        calc 1 < slotWidth * 1 := by decide
          _ ≤ length * speed := Nat.mul_le_mul hslots hspeed
      rcases h with ⟨rfl, rfl, -⟩ | ⟨hinside, rfl⟩
      · exact (Choice.possible_number (Nat.lt_of_succ_lt hrange)).bind (Choice.possible_pure _)
      · exact (Choice.possible_number hrange).bind
          (possible_choosePlaceInside hlength hpos hinside)
    · rw [if_neg hroom]
      rcases h with ⟨-, -, hzero | hroom'⟩ | ⟨hinside, rfl⟩
      · simp only [hzero, slotWidth] at hslots
        omega
      · exact absurd hroom' hroom
      · exact possible_choosePlaceInside hlength hpos hinside

/-! ## Slots -/

theorem possible_chooseOpcode {canJump : Bool} {op : Opcode}
    (h : op.isJump = true → canJump = true) (tries : Nat) :
    (chooseOpcode canJump (tries + 1)).Possible op := by
  have hop : Opcode.all.getD op.word.toNat .set = op := by
    rw [Array.getD_eq_getD_getElem?]
    exact congrArg (Option.getD · .set) (Opcode.ofWord?_word op)
  refine (Choice.possible_number (r := .large Opcode.count) op.word_lt_count).bind ?_
  simp only [hop]
  rw [if_neg]
  · exact Choice.possible_pure op
  · intro hrefused
    rw [Bool.and_eq_true] at hrefused
    rw [h hrefused.1] at hrefused
    exact absurd hrefused.2 (by decide)

theorem possible_chooseArg {kind : OperandKind} {w : Word} (hpos : pos % slotWidth = 0)
    (h : kind.Admits pos last registers w) : (chooseArg pos last registers kind).Possible w := by
  have hself : UInt16.ofNat w.toNat = w := UInt16.ofNat_toNat
  cases kind with
  | register =>
      refine (Choice.possible_number (r := .small registers) h).bind ?_
      rw [hself]
      exact Choice.possible_pure w
  | immediate =>
      refine (Choice.possible_number (r := .word) w.toNat_lt).bind ?_
      rw [hself]
      exact Choice.possible_pure w
  | target =>
      obtain ⟨haligned, hforward, hlast⟩ := h
      have hstep : (w.toNat - pos) / slotWidth - 1 < (last - pos) / slotWidth := by
        simp only [slotWidth] at *
        omega
      have htarget : pos + ((w.toNat - pos) / slotWidth - 1 + 1) * slotWidth = w.toNat := by
        simp only [slotWidth] at *
        omega
      refine (Choice.possible_number (r := .large ((last - pos) / slotWidth)) hstep).bind ?_
      rw [htarget, hself]
      exact Choice.possible_pure w

theorem possible_chooseArgs {kinds : List OperandKind} {ws : List Word}
    (hpos : pos % slotWidth = 0)
    (h : List.Forall₂ (fun kind w => OperandKind.Admits pos last registers w kind) kinds ws) :
    (chooseArgs pos last registers kinds).Possible ws := by
  induction h with
  | nil => exact Choice.possible_pure []
  | cons hw _ ih => exact (possible_chooseArg hpos hw).bind (ih.bind (Choice.possible_pure _))

/-- There is room for a slot behind a jump whose target is admitted. -/
theorem room_of_admits_target {kinds : List OperandKind} {ws : List Word}
    (hpos : pos % slotWidth = 0)
    (h : List.Forall₂ (fun kind w => OperandKind.Admits pos last registers w kind) kinds ws)
    (hmem : .target ∈ kinds) : pos + slotWidth ≤ last := by
  induction h with
  | nil => cases hmem
  | cons hw _ ih =>
      rcases List.mem_cons.mp hmem with rfl | hrest
      · obtain ⟨haligned, hforward, hlast⟩ := hw
        simp only [slotWidth] at *
        omega
      · exact ih hrest

theorem possible_chooseSlot {s : Slot} (hpos : pos % slotWidth = 0)
    (h : s.IsCanonical pos (min length Program.maxLength) registers) :
    (chooseSlot pos length registers).Possible s := by
  obtain ⟨op, ws, rfl, hargs⟩ := h
  have hjump : op.isJump = true →
      decide (pos + slotWidth ≤ min length Program.maxLength) = true := by
    intro hop
    exact decide_eq_true (room_of_admits_target hpos hargs (List.contains_iff_mem.mp hop))
  obtain ⟨tries, htries⟩ : ∃ tries, patience = tries + 1 := ⟨patience - 1, by decide⟩
  unfold chooseSlot
  rw [htries]
  exact (possible_chooseOpcode hjump tries).bind
    ((possible_chooseArgs hpos hargs).bind (Choice.possible_pure _))

/-! ## Edits -/

/-- **The edits that may be drawn are the legal ones.** -/
theorem possible_choose_iff {edit : Edit} (hlength : length % slotWidth = 0) :
    (choose length speed registers).Possible edit ↔
      edit.IsLegal length (clampRegisters registers) := by
  constructor
  · exact (ensures_choose hlength speed registers).possible
  · rintro ⟨hplace, haligned, hslot⟩
    exact (possible_choosePlace hlength (Nat.le_max_right speed 1) haligned hplace).bind
      ((possible_chooseSlot haligned hslot).bind (Choice.possible_pure edit))

end BytecodeSearch.Edit
