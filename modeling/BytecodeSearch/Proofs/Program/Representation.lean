import BytecodeSearch.Assembly.Assemble
import BytecodeSearch.Proofs.Program.Validity
import Mathlib

/-!
# How programs are kept

`Program.IsSound` says what holds of the buffer of a program: the program in it is valid, its size
is that of a fresh buffer doubled some times, and the words behind the program are zero. It holds of
every program there is a way to make (`Built.isSound`), and writing a checked slot over one of its
slots or behind the last one keeps it (`isSound_write`).

Two arrays of the same size with the same words in the view `getD` are the same (`ext_getD`), which
is how the words of a program are compared here.
-/

set_option autoImplicit false

namespace BytecodeSearch

theorem ext_getD {a b : Array Word} (hsize : a.size = b.size)
    (h : ∀ i, a.getD i 0 = b.getD i 0) : a = b := by
  refine Array.ext hsize fun i hi hi' => ?_
  have hword := h i
  simp only [Array.getD_eq_getD_getElem?, Array.getElem?_eq_getElem hi,
    Array.getElem?_eq_getElem hi', Option.getD_some] at hword
  exact hword

theorem getD_eq_zero_of_size_le {a : Array Word} {i : Nat} (h : a.size ≤ i) : a.getD i 0 = 0 := by
  rw [Array.getD_eq_getD_getElem?, Array.getElem?_eq_none h]
  rfl

theorem getD_replicate_zero (n i : Nat) : (Array.replicate n (0 : Word)).getD i 0 = 0 := by
  rw [Array.getD_eq_getD_getElem?, Array.getElem?_replicate]
  split <;> rfl

/-- A buffer that has only grown is the one before with zeros behind it. -/
theorem eq_append_zeros {a b : Array Word} (hsize : b.size ≤ a.size)
    (h : ∀ i, a.getD i 0 = b.getD i 0) : a = b ++ Array.replicate (a.size - b.size) 0 := by
  refine ext_getD ?_ fun i => ?_
  · rw [Array.size_append, Array.size_replicate]
    omega
  · rw [Program.getD_append_zeros, h]

namespace Program

/-! ## Sizes of buffers -/

/-- Whether a buffer may have this size: that of a fresh one, doubled some times. -/
def IsCapacity (n : Nat) : Prop := ∃ k, n = freshCapacity * 2 ^ k

theorem isCapacity_fresh : IsCapacity freshCapacity := ⟨0, rfl⟩

theorem IsCapacity.aligned {n : Nat} (h : IsCapacity n) : n % slotWidth = 0 := by
  obtain ⟨k, rfl⟩ := h
  have hfresh : freshCapacity = slotWidth * 16 := rfl
  rw [hfresh, Nat.mul_assoc, Nat.mul_mod_right]

theorem IsCapacity.slotWidth_le {n : Nat} (h : IsCapacity n) : slotWidth ≤ n := by
  obtain ⟨k, rfl⟩ := h
  have hpos : 0 < 2 ^ k := Nat.two_pow_pos k
  simp only [slotWidth, freshCapacity]
  omega

theorem IsCapacity.grown {n : Nat} (h : IsCapacity n) : IsCapacity (grownCapacity n) := by
  have hle := h.slotWidth_le
  obtain ⟨k, rfl⟩ := h
  refine ⟨k + 1, ?_⟩
  calc grownCapacity (freshCapacity * 2 ^ k)
      = freshCapacity * 2 ^ k * 2 := by rw [grownCapacity, Nat.max_eq_left hle]
    _ = freshCapacity * 2 ^ (k + 1) := by rw [Nat.pow_succ, Nat.mul_assoc]

theorem isCapacity_reserve {code : Array Word} (h : IsCapacity code.size) (n : Nat) :
    IsCapacity (reserve code n).size := by
  fun_induction reserve code n with
  | case1 code _ ih =>
      refine ih ?_
      have hlt := lt_grownCapacity code.size
      have hsize : (code ++ Array.replicate (grownCapacity code.size - code.size) 0).size =
          grownCapacity code.size := by
        rw [Array.size_append, Array.size_replicate]
        omega
      rw [hsize]
      exact h.grown
  | case2 code _ => exact h

/-! ## Words of programs -/

theorem size_words {p : Program} (h : p.length ≤ p.code.size) : p.words.size = p.length := by
  rw [words, Array.take_eq_extract, Array.size_extract]
  omega

theorem getD_words (p : Program) (i : Nat) :
    p.words.getD i 0 = if i < p.length then p.code.getD i 0 else 0 := by
  simp only [words, Array.getD_eq_getD_getElem?, Array.take_eq_extract, Array.getElem?_extract,
    Nat.zero_add, Nat.sub_zero]
  by_cases hi : i < p.length
  · rw [if_pos hi]
    by_cases hsize : i < p.code.size
    · rw [if_pos (by omega)]
    · rw [if_neg (by omega), Array.getElem?_eq_none (by omega)]
  · rw [if_neg hi, if_neg (by omega)]
    rfl

theorem getD_words_read (code : Array Word) (pos : Nat) {k : Nat} (hk : k < slotWidth) :
    (Slot.read code pos).words.getD k 0 = code.getD (pos + k) 0 := by
  match k, hk with
  | 0, _ => rfl
  | 1, _ => rfl
  | 2, _ => rfl
  | 3, _ => rfl

/-- Code with the same slots has the same words: each is one of the four of the slot around it. -/
theorem getD_eq_of_slots {code code' : Array Word} {length : Nat}
    (h : ∀ pos < length, pos % slotWidth = 0 → Slot.read code pos = Slot.read code' pos) {i : Nat}
    (hi : i < length) : code.getD i 0 = code'.getD i 0 := by
  have hslot := h (i / slotWidth * slotWidth)
    (Nat.lt_of_le_of_lt (Nat.div_mul_le_self i slotWidth) hi) (Nat.mul_mod_left _ _)
  have hk : i % slotWidth < slotWidth := Nat.mod_lt i (by decide)
  have hsplit : i / slotWidth * slotWidth + i % slotWidth = i := Nat.div_add_mod' i slotWidth
  calc code.getD i 0
      = (Slot.read code (i / slotWidth * slotWidth)).words.getD (i % slotWidth) 0 := by
        rw [getD_words_read _ _ hk, hsplit]
    _ = (Slot.read code' (i / slotWidth * slotWidth)).words.getD (i % slotWidth) 0 := by rw [hslot]
    _ = code'.getD i 0 := by rw [getD_words_read _ _ hk, hsplit]

/-- Writing a slot changes its four words. -/
theorem getD_write (p : Program) (pos : Nat) (s : Slot) (length i : Nat) :
    (p.write pos s length).code.getD i 0 =
      if pos ≤ i ∧ i < pos + slotWidth then s.words.getD (i - pos) 0 else p.code.getD i 0 := by
  have hfits := le_size_reserve p.code (pos + slotWidth)
  have hstored := getD_store (reserve p.code (pos + slotWidth)) pos s.words hfits i
  rw [getD_reserve] at hstored
  exact hstored

/-- The words of a fresh buffer that words are stored in. -/
theorem getD_store_reserve (ws : Array Word) (i : Nat) :
    (store (reserve empty.code ws.size) 0 ws.toList).getD i 0 = ws.getD i 0 := by
  have hfits : 0 + ws.toList.length ≤ (reserve empty.code ws.size).size := by
    rw [Nat.zero_add, Array.length_toList]
    exact le_size_reserve _ _
  rw [getD_store _ _ _ hfits, getD_reserve, Array.length_toList, Nat.zero_add, Nat.sub_zero]
  by_cases hi : i < ws.size
  · rw [if_pos ⟨Nat.zero_le i, hi⟩]
    simp [Array.getD_eq_getD_getElem?, List.getD_eq_getElem?_getD]
  · rw [if_neg fun h => hi h.2, getD_eq_zero_of_size_le (Nat.not_lt.mp hi)]
    exact getD_replicate_zero freshCapacity i

/-! ## Sound programs -/

/-- What holds of every program: it is valid, its buffer has the size of a fresh one, doubled some
times, and the words behind it are zero. -/
structure IsSound (p : Program) : Prop where
  valid : Code.IsValid p.code p.length
  capacity : IsCapacity p.code.size
  spare : ∀ i, p.length ≤ i → p.code.getD i 0 = 0

theorem IsSound.size_words {p : Program} (h : p.IsSound) : p.words.size = p.length :=
  Program.size_words h.valid.isLength.2

theorem isSound_empty : empty.IsSound where
  valid := Code.validate_eq_ok_iff.mp validate_empty
  capacity := by
    have hsize : empty.code.size = freshCapacity := Array.size_replicate
    rw [hsize]
    exact isCapacity_fresh
  spare := fun i _ => getD_replicate_zero freshCapacity i

theorem isSound_ofWords {ws : Array Word} {p : Program} (h : ofWords ws = .ok p) : p.IsSound := by
  have hvalid := Code.validate_eq_ok_iff.mp (validate_of_ofWords h)
  simp only [ofWords, bind_eq_ok_iff] at h
  obtain ⟨_, -, hp⟩ := h
  cases hp
  refine ⟨hvalid, ?_, fun i hi => ?_⟩
  · rw [size_store]
    exact isCapacity_reserve isSound_empty.capacity _
  · have hi : ws.size ≤ i := hi
    exact (getD_store_reserve ws i).trans (getD_eq_zero_of_size_le hi)

/-- Words are accepted as a program exactly if they are valid code. -/
theorem exists_ofWords_eq_ok_iff {ws : Array Word} :
    (∃ p, ofWords ws = .ok p) ↔ Code.IsValid ws ws.size := by
  have hsize : ws.size ≤ (store (reserve empty.code ws.size) 0 ws.toList).size := by
    rw [size_store]
    exact le_size_reserve _ _
  rw [← Code.isValid_congr hsize (Nat.le_refl _) fun i _ => getD_store_reserve ws i,
    ← Code.validate_eq_ok_iff]
  simp only [ofWords, bind_eq_ok_iff]
  constructor
  · rintro ⟨_, _, hvalid, -⟩
    exact hvalid
  · intro hvalid
    exact ⟨_, (), hvalid, rfl⟩

theorem words_of_ofWords {ws : Array Word} {p : Program} (h : ofWords ws = .ok p) : p.words = ws := by
  have hsize := (isSound_ofWords h).size_words
  simp only [ofWords, bind_eq_ok_iff] at h
  obtain ⟨_, -, hp⟩ := h
  cases hp
  refine ext_getD hsize fun i => ?_
  rw [getD_words]
  show (if i < ws.size then (store (reserve empty.code ws.size) 0 ws.toList).getD i 0 else 0) = _
  by_cases hi : i < ws.size
  · rw [if_pos hi, getD_store_reserve]
  · rw [if_neg hi, getD_eq_zero_of_size_le (Nat.not_lt.mp hi)]

/-- Writing a checked slot over a slot of a sound program, or behind its last one, gives a sound
program. -/
theorem isSound_write {p : Program} {pos length : Nat} {s : Slot} (hp : p.IsSound)
    (hpos : pos % slotWidth = 0)
    (hplace : pos < p.length ∧ length = p.length ∨ pos = p.length ∧ length = p.length + slotWidth)
    (hs : ∃ op, s.check pos = .ok op) : (p.write pos s length).IsSound := by
  refine ⟨isValid_write hp.valid hpos hplace hs, ?_, fun i hi => ?_⟩
  · rw [write, size_store]
    exact isCapacity_reserve hp.capacity _
  · have hlength := hp.valid.isLength.1
    have hi : length ≤ i := hi
    have hbehind : p.length ≤ i ∧ ¬ (pos ≤ i ∧ i < pos + slotWidth) := by
      simp only [slotWidth] at *
      omega
    rw [getD_write, if_neg hbehind.2]
    exact hp.spare i hbehind.1

/-! ## Where programs come from -/

/-- The programs there is a way to make: the empty one, and those from words, from an image and from
an assembly text. -/
inductive Built : Program → Prop where
  | empty : Built empty
  | ofWords {ws : Array Word} {p : Program} (h : ofWords ws = .ok p) : Built p
  | ofImage {image : Image} {p : Program} (h : image.toProgram = .ok p) : Built p
  | assembled {source : String} {p : Program} (h : Assembly.assemble source = .ok p) : Built p

theorem ofWords_of_toProgram {image : Image} {p : Program} (h : image.toProgram = .ok p) :
    Program.ofWords image.programWords = .ok p := by
  simp only [Image.toProgram] at h
  split at h
  · simp at h
  · exact h

theorem ofWords_of_assemble {source : String} {p : Program}
    (h : Assembly.assemble source = .ok p) : ∃ ws, Program.ofWords ws = .ok p := by
  simp only [Assembly.assemble, bind_eq_ok_iff] at h
  obtain ⟨_, -, slots, -, hp⟩ := h
  split at hp
  · rename_i q hwords
    cases hp
    exact ⟨_, hwords⟩
  · simp [throw, throwThe, MonadExceptOf.throw] at hp

theorem Built.isSound {p : Program} (h : Built p) : p.IsSound := by
  cases h with
  | empty => exact isSound_empty
  | ofWords h => exact isSound_ofWords h
  | ofImage h => exact isSound_ofWords (ofWords_of_toProgram h)
  | assembled h =>
      obtain ⟨ws, hwords⟩ := ofWords_of_assemble h
      exact isSound_ofWords hwords

end Program

end BytecodeSearch
