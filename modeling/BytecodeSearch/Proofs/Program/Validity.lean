import BytecodeSearch.Program.Image
import BytecodeSearch.Proofs.Isa.Decode
import BytecodeSearch.Proofs.Program.Buffer

/-!
# Valid programs

`Code.IsValid` says slot by slot what `Code.validate` checks (`validate_eq_ok_iff`). Programs start
valid (`validate_empty`, `validate_of_toProgram`) and stay valid when a checked slot is written over
one of their slots or behind the last one (`isValid_write`).
-/

set_option autoImplicit false

namespace BytecodeSearch

/-! ## Computations that may fail -/

theorem exists_mapM_eq_ok_iff {ε α β : Type} {f : α → Except ε β} {l : List α} :
    (∃ bs, l.mapM f = .ok bs) ↔ ∀ a ∈ l, ∃ b, f a = .ok b := by
  induction l with
  | nil => simp [pure, Except.pure]
  | cons a l ih =>
      simp only [List.mapM_cons, bind_eq_ok_iff, List.forall_mem_cons, ← ih]
      constructor
      · rintro ⟨_, b, hb, bs, hbs, -⟩
        exact ⟨⟨b, hb⟩, bs, hbs⟩
      · rintro ⟨⟨b, hb⟩, bs, hbs⟩
        exact ⟨b :: bs, b, hb, bs, hbs, rfl⟩

theorem bind_eq_error_iff {ε α β : Type} {x : Except ε α} {f : α → Except ε β} {e : ε} :
    x >>= f = .error e ↔ x = .error e ∨ ∃ a, x = .ok a ∧ f a = .error e := by
  cases x with
  | ok a =>
      constructor
      · intro h
        exact .inr ⟨a, rfl, h⟩
      · rintro (h | ⟨_, ha, h⟩)
        · cases h
        · obtain rfl := Except.ok.inj ha
          exact h
  | error e' =>
      constructor
      · intro h
        exact .inl (congrArg Except.error (Except.error.inj h))
      · rintro (h | ⟨_, ha, -⟩)
        · exact congrArg Except.error (Except.error.inj h)
        · cases ha

/-- An item with `Q` behind items that all have `P` is the head, or the head has `P` and it is in the tail. -/
theorem exists_first_cons_iff {α : Type} {P Q : α → Prop} {x : α} {l : List α} :
    (∃ before a after, x :: l = before ++ a :: after ∧ (∀ y ∈ before, P y) ∧ Q a) ↔
      Q x ∨ P x ∧ ∃ before a after, l = before ++ a :: after ∧ (∀ y ∈ before, P y) ∧ Q a := by
  constructor
  · rintro ⟨before, a, after, hl, hbefore, ha⟩
    cases before with
    | nil =>
        obtain ⟨rfl, -⟩ := List.cons.inj hl
        exact .inl ha
    | cons y before =>
        obtain ⟨rfl, rfl⟩ := List.cons.inj hl
        obtain ⟨hx, hothers⟩ := List.forall_mem_cons.mp hbefore
        exact .inr ⟨hx, before, a, after, rfl, hothers, ha⟩
  · rintro (hx | ⟨hx, before, a, after, rfl, hbefore, ha⟩)
    · exact ⟨[], x, l, rfl, by simp, hx⟩
    · exact ⟨x :: before, a, after, rfl, List.forall_mem_cons.mpr ⟨hx, hbefore⟩, ha⟩

/-- Steps in a row fail with the error of the first one that fails. -/
theorem mapM_eq_error_iff {ε α β : Type} {f : α → Except ε β} {l : List α} {e : ε} :
    l.mapM f = .error e ↔ ∃ before a after, l = before ++ a :: after ∧
      (∀ x ∈ before, ∃ b, f x = .ok b) ∧ f a = .error e := by
  induction l with
  | nil =>
      constructor
      · intro h
        cases h
      · rintro ⟨before, a, after, hl, -⟩
        exact absurd hl.symm (List.append_ne_nil_of_right_ne_nil _ (List.cons_ne_nil _ _))
  | cons x l ih =>
      rw [List.mapM_cons, bind_eq_error_iff, exists_first_cons_iff, ← ih]
      refine or_congr_right ⟨?_, ?_⟩
      · rintro ⟨b, hb, h⟩
        rcases bind_eq_error_iff.mp h with h | ⟨bs, -, h⟩
        · exact ⟨⟨b, hb⟩, h⟩
        · cases h
      · rintro ⟨⟨b, hb⟩, h⟩
        exact ⟨b, hb, bind_eq_error_iff.mpr (.inl h)⟩

theorem unless_eq_ok_iff {ε α : Type} {c : Prop} [Decidable c] {e : ε} {next : Except ε α} {a : α} :
    (if c then (throw e : Except ε PUnit) >>= fun _ => next else next) = .ok a ↔
      ¬ c ∧ next = .ok a := by
  by_cases hc : c
  · rw [if_pos hc]
    constructor
    · intro h
      cases h
    · rintro ⟨hne, -⟩
      exact absurd hc hne
  · rw [if_neg hc]
    exact (and_iff_right hc).symm

namespace Code

/-! ## What the check accepts -/

/-- The first `length` words of `code` are whole slots, and every one of them is in order. -/
structure IsValid (code : Array Word) (length : Nat) : Prop where
  /-- The length is a whole number of slots inside the buffer. -/
  isLength : IsLength length code.size
  /-- Every slot passes the check. -/
  slots : ∀ pos < length, pos % slotWidth = 0 → ∃ op, (Slot.read code pos).check pos = .ok op

theorem mem_offsets {length pos : Nat} (h : length % slotWidth = 0) :
    pos ∈ offsets length ↔ pos < length ∧ pos % slotWidth = 0 := by
  simp only [offsets, List.mem_map, List.mem_range, slotWidth] at *
  constructor
  · rintro ⟨k, hk, rfl⟩
    omega
  · rintro ⟨hlt, hpos⟩
    exact ⟨pos / 4, by omega, by omega⟩

theorem checkLength_eq_ok_iff {code : Array Word} {length : Nat} :
    checkLength code length = .ok () ↔ IsLength length code.size := by
  simp only [checkLength]
  by_cases h : IsLength length code.size
  · simp [h]
  · simp [h]

/-- Validation accepts exactly the code whose slots are all in order. -/
theorem validate_eq_ok_iff {code : Array Word} {length : Nat} :
    validate code length = .ok () ↔ IsValid code length := by
  have hopcodes : validate code length = .ok () ↔ ∃ ops, opcodes code length = .ok ops := by
    simp only [validate, bind_eq_ok_iff]
    exact ⟨fun ⟨ops, h, _⟩ => ⟨ops, h⟩, fun ⟨ops, h⟩ => ⟨ops, h, rfl⟩⟩
  rw [hopcodes]
  simp only [opcodes, bind_eq_ok_iff]
  constructor
  · rintro ⟨ops, u, hlength, hops⟩
    have hlen := checkLength_eq_ok_iff.mp hlength
    refine ⟨hlen, fun pos hlt hpos => ?_⟩
    exact exists_mapM_eq_ok_iff.mp ⟨ops, hops⟩ pos ((mem_offsets hlen.1).mpr ⟨hlt, hpos⟩)
  · rintro ⟨hlen, hslots⟩
    have hall : ∀ pos ∈ offsets length, ∃ op, (Slot.read code pos).check pos = .ok op := by
      intro pos hmem
      obtain ⟨hlt, hpos⟩ := (mem_offsets hlen.1).mp hmem
      exact hslots pos hlt hpos
    obtain ⟨ops, hops⟩ := exists_mapM_eq_ok_iff.mpr hall
    exact ⟨ops, (), checkLength_eq_ok_iff.mpr hlen, hops⟩

theorem IsValid.congr {code code' : Array Word} {length : Nat} (h : IsValid code length)
    (hsize : length ≤ code'.size) (hsame : ∀ i < length, code.getD i 0 = code'.getD i 0) :
    IsValid code' length := by
  refine ⟨⟨h.isLength.1, hsize⟩, fun pos hlt hpos => ?_⟩
  have hread : Slot.read code' pos = Slot.read code pos := by
    refine Program.read_congr fun i _ hi => (hsame i ?_).symm
    -- the slot is inside the program as a whole
    have hwhole := h.isLength.1
    simp only [slotWidth] at *
    omega
  rw [hread]
  exact h.slots pos hlt hpos

/-- Whether code is valid depends on the words of the program only. -/
theorem isValid_congr {code code' : Array Word} {length : Nat} (hsize : length ≤ code.size)
    (hsize' : length ≤ code'.size) (hsame : ∀ i < length, code.getD i 0 = code'.getD i 0) :
    IsValid code length ↔ IsValid code' length :=
  ⟨fun h => h.congr hsize' hsame, fun h => h.congr hsize fun i hi => (hsame i hi).symm⟩

end Code

namespace Program

/-! ## Where programs come from -/

theorem validate_empty : empty.validate = .ok () := by
  rw [validate, Code.validate_eq_ok_iff]
  exact ⟨by decide, fun _ hlt _ => absurd hlt (Nat.not_lt_zero _)⟩

theorem validate_of_ofWords {ws : Array Word} {p : Program} (h : ofWords ws = .ok p) :
    p.validate = .ok () := by
  simp only [ofWords, bind_eq_ok_iff] at h
  obtain ⟨_, hvalid, hp⟩ := h
  cases hp
  exact hvalid

/-- A program read from an image is valid. -/
theorem validate_of_toProgram {image : Image} {p : Program} (h : image.toProgram = .ok p) :
    p.validate = .ok () := by
  simp only [Image.toProgram] at h
  split at h
  · simp at h
  · exact validate_of_ofWords h

/-! ## Writing a slot -/

theorem le_size_write (p : Program) (pos : Nat) (s : Slot) (length : Nat) :
    pos + slotWidth ≤ (p.write pos s length).code.size := by
  rw [write, size_store]
  exact le_size_reserve _ _

theorem size_le_size_write (p : Program) (pos : Nat) (s : Slot) (length : Nat) :
    p.code.size ≤ (p.write pos s length).code.size := by
  rw [write, size_store]
  exact size_le_size_reserve _ _

theorem read_write_self (p : Program) (pos : Nat) (s : Slot) (length : Nat) :
    Slot.read (p.write pos s length).code pos = s := by
  have hfits := le_size_reserve p.code (pos + slotWidth)
  simp only [write]
  exact read_store_self s hfits

theorem read_write_ne (p : Program) {pos q : Nat} (s : Slot) (length : Nat)
    (hpos : pos % slotWidth = 0) (hq : q % slotWidth = 0) (hne : q ≠ pos) :
    Slot.read (p.write pos s length).code q = Slot.read p.code q := by
  rw [write, read_store_ne s (le_size_reserve _ _) hpos hq hne]
  exact read_congr fun i _ _ => getD_reserve _ _ i

/-- Writing a slot that passes the check over a slot of a valid program, or behind its last one,
gives a valid program. -/
theorem isValid_write {p : Program} {pos length : Nat} {s : Slot}
    (hp : Code.IsValid p.code p.length) (hpos : pos % slotWidth = 0)
    (hplace : pos < p.length ∧ length = p.length ∨ pos = p.length ∧ length = p.length + slotWidth)
    (hs : ∃ op, s.check pos = .ok op) : Code.IsValid (p.write pos s length).code length := by
  have hlen := hp.isLength
  constructor
  · have hfits := le_size_write p pos s length
    have hgrows := size_le_size_write p pos s length
    simp only [Code.IsLength, slotWidth] at *
    omega
  · intro q hlt hq
    by_cases hqp : q = pos
    · subst hqp
      rw [read_write_self]
      exact hs
    · rw [read_write_ne p s length hpos hq hqp]
      refine hp.slots q ?_ hq
      simp only [Code.IsLength, slotWidth] at *
      omega

end Program

end BytecodeSearch
