import BytecodeSearch.Proofs.Program.Representation

/-!
# Code as slots

Whole slots in a row are an array of words, and the array gives the slots back (`read_flatMap_words`,
`eq_flatMap_read`); it is valid code exactly if every slot passes the check at its place
(`isValid_flatMap_words_iff`).

Of the four words of a slot, its instruction uses the opcode word and as many argument words as its
layout has; the others mean nothing (`Code.IsUsed`). `Code.cleared` is code with zeros in their
place, and slot by slot it is `Slot.cleared` (`read_cleared`).
-/

set_option autoImplicit false

namespace BytecodeSearch

/-! ## Slots in a row -/

theorem length_flatMap_words (slots : List Slot) :
    (slots.flatMap Slot.words).length = slotWidth * slots.length := by
  induction slots with
  | nil => rfl
  | cons s slots ih =>
      rw [List.flatMap_cons, List.length_append, ih, List.length_cons, Nat.mul_succ, Nat.add_comm]
      rfl

theorem getD_words_zero {k : Nat} (hk : k < slotWidth) : Slot.zero.words.getD k 0 = 0 := by
  simp only [slotWidth] at hk
  obtain rfl | rfl | rfl | rfl : k = 0 ∨ k = 1 ∨ k = 2 ∨ k = 3 := by omega
  all_goals rfl

theorem getD_flatMap_words (slots : List Slot) (i : Nat) {k : Nat} (hk : k < slotWidth) :
    (slots.flatMap Slot.words).getD (slotWidth * i + k) 0 =
      (slots.getD i Slot.zero).words.getD k 0 := by
  induction slots generalizing i with
  | nil => exact (getD_words_zero hk).symm
  | cons s slots ih =>
      have hlength : s.words.length = slotWidth := rfl
      rw [List.flatMap_cons]
      cases i with
      | zero =>
          rw [Nat.mul_zero, Nat.zero_add, List.getD_append _ _ _ _ (by omega), List.getD_cons_zero]
      | succ i =>
          rw [List.getD_append_right _ _ _ _ (by rw [hlength, Nat.mul_succ]; omega),
            List.getD_cons_succ, ← ih i]
          congr 1
          rw [hlength, Nat.mul_succ]
          omega

theorem getD_toArray (ws : List Word) (i : Nat) : ws.toArray.getD i 0 = ws.getD i 0 := by
  simp [Array.getD_eq_getD_getElem?, List.getD_eq_getElem?_getD]

/-- A slot is read where it stands. -/
theorem read_flatMap_words {slots : List Slot} {i : Nat} (h : i < slots.length) :
    Slot.read (slots.flatMap Slot.words).toArray (slotWidth * i) = slots[i] := by
  have hword : ∀ k, k < 4 → (slots.flatMap Slot.words).toArray.getD (slotWidth * i + k) 0 =
      slots[i].words.getD k 0 := by
    intro k hk
    rw [← List.getD_eq_getElem slots Slot.zero h, ← getD_flatMap_words slots i hk, getD_toArray]
  have hzero := hword 0 (by omega)
  rw [Nat.add_zero] at hzero
  simp only [Slot.read, hzero, hword 1 (by omega), hword 2 (by omega), hword 3 (by omega)]
  rfl

/-- Slots in a row are valid code exactly if each passes the check at its place. -/
theorem isValid_flatMap_words_iff {slots : List Slot} :
    Code.IsValid (slots.flatMap Slot.words).toArray (slots.flatMap Slot.words).toArray.size ↔
      ∀ i (h : i < slots.length), ∃ op, slots[i].check (slotWidth * i) = .ok op := by
  have hsize : (slots.flatMap Slot.words).toArray.size = slotWidth * slots.length :=
    length_flatMap_words slots
  constructor
  · intro hvalid i hi
    rw [← read_flatMap_words hi]
    refine hvalid.slots (slotWidth * i) ?_ (Nat.mul_mod_right _ _)
    rw [hsize]
    exact Nat.mul_lt_mul_of_pos_left hi (by decide)
  · intro hslots
    refine ⟨⟨?_, Nat.le_refl _⟩, fun pos hlt hpos => ?_⟩
    · rw [hsize]
      exact Nat.mul_mod_right _ _
    · obtain ⟨i, rfl⟩ := Nat.dvd_of_mod_eq_zero hpos
      have hi : i < slots.length := by
        rw [hsize] at hlt
        exact Nat.lt_of_mul_lt_mul_left hlt
      rw [read_flatMap_words hi]
      exact hslots i hi

/-- Code of whole slots is the words of its slots. -/
theorem eq_flatMap_read {code : Array Word} {n : Nat} (h : code.size = slotWidth * n) :
    code =
      (((List.range n).map fun i => Slot.read code (slotWidth * i)).flatMap Slot.words).toArray := by
  refine ext_getD ?_ fun i => ?_
  · rw [h, List.size_toArray, length_flatMap_words, List.length_map, List.length_range]
  · have hsplit : slotWidth * (i / slotWidth) + i % slotWidth = i := Nat.div_add_mod i slotWidth
    have hmod : i % slotWidth < slotWidth := Nat.mod_lt _ (by decide)
    refine Eq.trans ?_ (getD_toArray _ i).symm
    rw [← hsplit, getD_flatMap_words _ _ hmod]
    have hlength : ((List.range n).map fun i => Slot.read code (slotWidth * i)).length = n := by
      rw [List.length_map, List.length_range]
    by_cases hi : i / slotWidth < n
    · rw [List.getD_eq_getElem _ Slot.zero (hlength.symm ▸ hi), List.getElem_map,
        List.getElem_range]
      exact (Program.getD_words_read code _ hmod).symm
    · have hbehind : slotWidth * n ≤ slotWidth * (i / slotWidth) :=
        Nat.mul_le_mul_left _ (Nat.not_lt.mp hi)
      rw [List.getD_eq_default _ Slot.zero (hlength.symm ▸ Nat.not_lt.mp hi),
        getD_eq_zero_of_size_le (by omega)]
      exact (getD_words_zero hmod).symm

/-! ## Words that are used -/

/-- The slot with zeros in place of the argument words that the instruction does not use. -/
def Slot.cleared (op : Opcode) (s : Slot) : Slot := ofArgs op (s.args.take op.layout.length)

namespace Slot

theorem cleared_cleared (s : Slot) (op : Opcode) : (s.cleared op).cleared op = s.cleared op := by
  cases op <;> rfl

/-- The argument words that are used, with zeros behind them. -/
theorem getD_take_args (s : Slot) (op : Opcode) (k : Nat) :
    (s.args.take op.layout.length)[k]?.getD 0 =
      if k < op.layout.length then s.args.getD k 0 else 0 := by
  rw [List.getElem?_take, List.getD_eq_getElem?_getD]
  split <;> rfl

theorem zip_take_args (s : Slot) (op : Opcode) :
    op.layout.zip (s.args.take op.layout.length) = op.layout.zip s.args := by
  cases op <;> rfl

theorem zip_args_cleared (s : Slot) (op : Opcode) :
    op.layout.zip (s.cleared op).args = op.layout.zip s.args := by
  cases op <;> rfl

/-- Argument words are in order exactly if each of them fits its kind. -/
theorem checkArgs_eq_ok_iff {pos : Nat} {kinds : List OperandKind} {ws : List Word} :
    checkArgs pos kinds ws = .ok () ↔ ∀ x ∈ kinds.zip ws, x.1.check pos x.2 = .ok () := by
  induction kinds generalizing ws with
  | nil => simp [checkArgs]
  | cons kind kinds ih =>
      cases ws with
      | nil => simp [checkArgs]
      | cons w ws =>
          simp only [checkArgs, bind_eq_ok_iff, ih, List.zip_cons_cons, List.forall_mem_cons]
          constructor
          · rintro ⟨_, hw, hws⟩
            exact ⟨hw, hws⟩
          · rintro ⟨hw, hws⟩
            exact ⟨(), hw, hws⟩

/-- A slot passes the check exactly if its opcode is known and every argument word that is used fits its
kind. -/
theorem check_eq_ok_iff {pos : Nat} {s : Slot} {op : Opcode} :
    s.check pos = .ok op ↔
      s.opcode = op.word ∧ ∀ x ∈ op.layout.zip s.args, x.1.check pos x.2 = .ok () := by
  simp only [← checkArgs_eq_ok_iff, ← Opcode.ofWord?_eq_some_iff, check]
  cases Opcode.ofWord? s.opcode with
  | none => simp
  | some found =>
      simp only [bind_eq_ok_iff, Option.some.injEq]
      constructor
      · rintro ⟨_, hargs, h⟩
        obtain rfl := Except.ok.inj h
        exact ⟨rfl, hargs⟩
      · rintro ⟨rfl, hargs⟩
        exact ⟨(), hargs, rfl⟩

/-- What an instruction does not use is not checked. -/
theorem check_cleared {pos : Nat} {s : Slot} {op : Opcode} (h : s.check pos = .ok op) :
    (s.cleared op).check pos = .ok op := by
  rw [check_eq_ok_iff] at h ⊢
  rw [zip_args_cleared]
  exact ⟨rfl, h.2⟩

end Slot

namespace Code

/-- Whether a word of the code is the opcode word of its slot, or an argument word that the instruction
of this opcode uses. -/
def IsUsed (code : Array Word) (i : Nat) : Prop :=
  ∃ op, Opcode.ofWord? (code.getD (i - i % slotWidth) 0) = some op ∧ i % slotWidth ≤ op.layout.length

instance (code : Array Word) (i : Nat) : Decidable (IsUsed code i) :=
  decidable_of_iff
    ((Opcode.ofWord? (code.getD (i - i % slotWidth) 0)).any fun op =>
      decide (i % slotWidth ≤ op.layout.length)) (by simp [IsUsed, Option.any_eq_true])

/-- The first `length` words of the code, with zeros in place of those that are not used. -/
def cleared (code : Array Word) (length : Nat) : Array Word :=
  Array.ofFn fun i : Fin length => if IsUsed code i then code.getD i 0 else 0

theorem size_cleared (code : Array Word) (length : Nat) : (cleared code length).size = length :=
  Array.size_ofFn

theorem getD_cleared {code : Array Word} {length i : Nat} (h : i < length) :
    (cleared code length).getD i 0 = if IsUsed code i then code.getD i 0 else 0 := by
  simp [cleared, Array.getD_eq_getD_getElem?, h]

/-- Clearing code clears its slots. -/
theorem read_cleared {code : Array Word} {length pos : Nat} {op : Opcode}
    (hpos : pos % slotWidth = 0) (hlength : length % slotWidth = 0) (hlt : pos < length)
    (hop : Opcode.ofWord? (Slot.read code pos).opcode = some op) :
    Slot.read (cleared code length) pos = (Slot.read code pos).cleared op := by
  have hword : ∀ k, k < 4 → (cleared code length).getD (pos + k) 0 =
      if k ≤ op.layout.length then code.getD (pos + k) 0 else 0 := by
    intro k hk
    -- word `k` of the slot, whose opcode word is at `pos`
    have hmod : (pos + k) % slotWidth = k := by
      simp only [slotWidth] at *
      omega
    have hused : IsUsed code (pos + k) ↔ k ≤ op.layout.length := by
      unfold IsUsed
      rw [hmod, Nat.add_sub_cancel]
      constructor
      · rintro ⟨op', hop', hle⟩
        obtain rfl := Option.some.inj (hop'.symm.trans hop)
        exact hle
      · exact fun hle => ⟨op, hop, hle⟩
    rw [getD_cleared (by simp only [slotWidth] at *; omega)]
    simp only [hused]
  have harg : ∀ k, k < 3 → ((Slot.read code pos).args.take op.layout.length)[k]?.getD 0 =
      if k + 1 ≤ op.layout.length then code.getD (pos + (k + 1)) 0 else 0 := by
    intro k hk
    rw [Slot.getD_take_args]
    obtain rfl | rfl | rfl : k = 0 ∨ k = 1 ∨ k = 2 := by omega
    all_goals rfl
  have hopcode : code.getD pos 0 = op.word := Opcode.ofWord?_eq_some_iff.mp hop
  have hzero := hword 0 (by omega)
  rw [if_pos (Nat.zero_le _), Nat.add_zero, hopcode] at hzero
  rw [Slot.cleared, Slot.ofArgs, harg 0 (by omega), harg 1 (by omega), harg 2 (by omega), Slot.read,
    hzero, hword 1 (by omega), hword 2 (by omega), hword 3 (by omega)]

end Code

end BytecodeSearch
