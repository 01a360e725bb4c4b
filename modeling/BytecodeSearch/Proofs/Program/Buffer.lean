import BytecodeSearch.Program.Basic

/-!
# The words of a code buffer

A buffer is looked at word by word, with zero behind its end (`code.getD i 0`). Through this view
growing is invisible (`getD_reserve`) and storing changes the stored places only (`getD_store`).
Slots that stand at slot boundaries do not overlap, so the same holds slot by slot
(`read_store_self`, `read_store_ne`).
-/

set_option autoImplicit false

namespace BytecodeSearch

theorem getD_setIfInBounds {α : Type} {xs : Array α} {pos : Nat} (h : pos < xs.size) (i : Nat)
    (x d : α) : (xs.setIfInBounds pos x).getD i d = if i = pos then x else xs.getD i d := by
  simp only [Array.getD_eq_getD_getElem?, Array.getElem?_setIfInBounds, h]
  by_cases hi : i = pos
  · subst hi
    simp
  · rw [if_neg (fun h => hi h.symm), if_neg hi]

namespace Program

/-! ## Growing -/

theorem le_size_reserve (code : Array Word) (n : Nat) : n ≤ (reserve code n).size := by
  fun_induction reserve code n with
  | case1 code _ ih => exact ih
  | case2 code h => omega

theorem size_le_size_reserve (code : Array Word) (n : Nat) : code.size ≤ (reserve code n).size := by
  fun_induction reserve code n with
  | case1 code _ ih =>
      rw [Array.size_append] at ih
      omega
  | case2 code _ => exact Nat.le_refl _

theorem reserve_of_le {code : Array Word} {n : Nat} (h : n ≤ code.size) : reserve code n = code := by
  rw [reserve, if_neg (Nat.not_lt.mpr h)]

/-- A buffer of a slot or more that is too small by less than its size is doubled once. -/
theorem reserve_eq_append {code : Array Word} {n : Nat} (hslot : slotWidth ≤ code.size)
    (h : code.size < n) (htwice : n ≤ code.size + code.size) :
    reserve code n = code ++ Array.replicate code.size 0 := by
  have hgrown : grownCapacity code.size - code.size = code.size := by
    rw [grownCapacity, Nat.max_eq_left hslot]
    omega
  rw [reserve, if_pos h, hgrown, reserve_of_le]
  rwa [Array.size_append, Array.size_replicate]

/-- New words are zero, and that is what stood behind the end before. -/
theorem getD_append_zeros (code : Array Word) (n i : Nat) :
    (code ++ Array.replicate n 0).getD i 0 = code.getD i 0 := by
  simp only [Array.getD_eq_getD_getElem?, Array.getElem?_append, Array.getElem?_replicate]
  by_cases h : i < code.size
  · rw [if_pos h]
  · rw [if_neg h, Array.getElem?_eq_none (by omega)]
    by_cases hn : i - code.size < n
    · rw [if_pos hn]
      rfl
    · rw [if_neg hn]

/-- Growing changes no word. -/
theorem getD_reserve (code : Array Word) (n i : Nat) :
    (reserve code n).getD i 0 = code.getD i 0 := by
  fun_induction reserve code n with
  | case1 code _ ih => rw [ih, getD_append_zeros]
  | case2 code _ => rfl

/-! ## Storing -/

@[simp] theorem size_store (code : Array Word) (pos : Nat) (ws : List Word) :
    (store code pos ws).size = code.size := by
  induction ws generalizing code pos with
  | nil => rfl
  | cons w ws ih => rw [store, ih, Array.size_setIfInBounds]

/-- Storing words changes the places they are stored at, and these only. -/
theorem getD_store (code : Array Word) (pos : Nat) (ws : List Word)
    (h : pos + ws.length ≤ code.size) (i : Nat) :
    (store code pos ws).getD i 0 =
      if pos ≤ i ∧ i < pos + ws.length then ws.getD (i - pos) 0 else code.getD i 0 := by
  induction ws generalizing code pos with
  | nil =>
      rw [if_neg (by simp only [List.length_nil]; omega)]
      rfl
  | cons w ws ih =>
      rw [List.length_cons] at h
      rw [store, ih _ _ (by rw [Array.size_setIfInBounds]; omega),
        getD_setIfInBounds (by omega), List.length_cons]
      by_cases hi : i = pos
      · subst hi
        rw [if_neg (by omega), if_pos rfl, if_pos (by omega), Nat.sub_self, List.getD_cons_zero]
      · rw [if_neg hi]
        by_cases hin : pos + 1 ≤ i ∧ i < pos + 1 + ws.length
        · have hsub : i - pos = i - (pos + 1) + 1 := by omega
          rw [if_pos hin, if_pos (by omega), hsub, List.getD_cons_succ]
        · rw [if_neg hin, if_neg (by omega)]

/-! ## Slots -/

/-- Two buffers with the same words at a slot have the same slot there. -/
theorem read_congr {code code' : Array Word} {pos : Nat}
    (h : ∀ i, pos ≤ i → i < pos + slotWidth → code.getD i 0 = code'.getD i 0) :
    Slot.read code pos = Slot.read code' pos := by
  simp only [slotWidth] at h
  simp only [Slot.read, h pos (by omega) (by omega), h (pos + 1) (by omega) (by omega),
    h (pos + 2) (by omega) (by omega), h (pos + 3) (by omega) (by omega)]

/-- A stored slot is read back. -/
theorem read_store_self {code : Array Word} {pos : Nat} (s : Slot)
    (h : pos + slotWidth ≤ code.size) : Slot.read (store code pos s.words) pos = s := by
  have hlen : s.words.length = slotWidth := rfl
  have hget : ∀ k, k < 4 → (store code pos s.words).getD (pos + k) 0 = s.words.getD k 0 := by
    intro k hk
    rw [getD_store _ _ _ (by rw [hlen]; exact h),
      if_pos (by simp only [hlen, slotWidth]; omega), Nat.add_sub_cancel_left]
  have h0 := hget 0 (by omega)
  rw [Nat.add_zero] at h0
  simp only [Slot.read, h0, hget 1 (by omega), hget 2 (by omega), hget 3 (by omega)]
  rfl

/-- Storing a slot leaves the slots at other boundaries alone. -/
theorem read_store_ne {code : Array Word} {pos q : Nat} (s : Slot)
    (h : pos + slotWidth ≤ code.size) (hpos : pos % slotWidth = 0) (hq : q % slotWidth = 0)
    (hne : q ≠ pos) : Slot.read (store code pos s.words) q = Slot.read code q := by
  have hlen : s.words.length = slotWidth := rfl
  refine read_congr fun i hi hi' => ?_
  simp only [slotWidth] at *
  rw [getD_store _ _ _ (by omega), if_neg (by omega)]

end Program

end BytecodeSearch
