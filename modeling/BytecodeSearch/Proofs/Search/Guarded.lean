import BytecodeSearch.Proofs.Search.Editing

/-!
# Edits with every step guarded

`Guarded.mutate` edits as `Editor.mutate` does, but looks at every step before it is taken, and stops
with a `Fault` where the numbers of a machine would not do: at a draw from no numbers, a product of more
than 64 bits, a difference below zero, a target that is no word, an opcode that is in no table, a slot
or a program that is not inside the buffer when it has been doubled once, and when as many instructions
have been drawn as one likes and none will do.

No step of an edit is at fault (`mutate_guarded`). `Agrees` compares a guarded computation with the one
it guards, along the draws of both, and what the draws ensure (`Choice.Ensures`) tells for each step why
its guard lets it pass.
-/

set_option autoImplicit false

namespace BytecodeSearch

/-- Why a guarded edit stops. -/
inductive Fault where
  /-- There is no number to draw. -/
  | emptyRange (r : Range)
  /-- The product has more than 64 bits. -/
  | product (a b : Nat)
  /-- The difference is below zero. -/
  | difference (a b : Nat)
  /-- The number has more than sixteen bits. -/
  | word (n : Nat)
  /-- No instruction has this number. -/
  | opcode (i : Nat)
  /-- The slot, or the program with it, is not inside the buffer. -/
  | buffer (edit : Edit) (capacity : Nat)
  /-- None of the instructions drawn will do. -/
  | redraw
  deriving DecidableEq

/-- A computation that draws numbers and may stop with a fault. -/
abbrev Guarded := ExceptT Fault Choice

namespace Guarded

/-! ## Guarded steps -/

/-- A product of 64 bits. -/
def product (a b : Nat) : Except Fault Nat :=
  if a * b < 2 ^ 64 then .ok (a * b) else .error (.product a b)

/-- A difference of numbers that are not negative. -/
def difference (a b : Nat) : Except Fault Nat :=
  if b ≤ a then .ok (a - b) else .error (.difference a b)

/-- A number as a word, with all of its bits. -/
def word (n : Nat) : Except Fault Word :=
  if n < 2 ^ 16 then .ok (UInt16.ofNat n) else .error (.word n)

/-- The instruction with this number. -/
def opcode (i : Nat) : Except Fault Opcode :=
  match Opcode.all[i]? with
  | some op => .ok op
  | none => .error (.opcode i)

/-- A number drawn from a range that is not empty. -/
def number (r : Range) : Guarded Nat :=
  if 0 < r.size then ExceptT.lift (Choice.number r) else throw (.emptyRange r)

/-- Guards `Edit.choosePlaceInside`. -/
def choosePlaceInside (length : Nat) : Guarded (Nat × Nat) := do
  let i ← number (.large (length / slotWidth))
  return (i * slotWidth, length)

/-- Guards `Edit.choosePlace`. -/
def choosePlace (length speed : Nat) : Guarded (Nat × Nat) := do
  let append := (length, length + slotWidth)
  if length / slotWidth = 0 then
    return append
  else if length + slotWidth ≤ Program.maxLength then
    let size ← product length speed
    let v ← number (.large size)
    if v = 0 then return append else choosePlaceInside length
  else
    choosePlaceInside length

/-- Guards `Edit.chooseOpcode`, which may draw so many times. -/
def chooseOpcode (canJump : Bool) : Nat → Guarded Opcode
  | 0 => throw .redraw
  | tries + 1 => do
      let i ← number (.large Opcode.count)
      let op ← opcode i
      if op.isJump && !canJump then chooseOpcode canJump tries else return op

/-- Guards `Edit.chooseArg`. -/
def chooseArg (pos last registers : Nat) : OperandKind → Guarded Word
  | .register => do
      let v ← number (.small registers)
      word v
  | .immediate => do
      let v ← number .word
      word v
  | .target => do
      let room ← difference last pos
      let k ← number (.large (room / slotWidth))
      word (pos + (k + 1) * slotWidth)

/-- Guards `Edit.chooseArgs`. -/
def chooseArgs (pos last registers : Nat) : List OperandKind → Guarded (List Word)
  | [] => return []
  | kind :: kinds => do
      let w ← chooseArg pos last registers kind
      let ws ← chooseArgs pos last registers kinds
      return w :: ws

/-- Guards `Edit.chooseSlot`, where an instruction may be drawn so many times. -/
def chooseSlot (tries pos length registers : Nat) : Guarded Slot := do
  let last := min length Program.maxLength
  let op ← chooseOpcode (pos + slotWidth ≤ last) tries
  let args ← chooseArgs pos last registers op.layout
  return Slot.ofArgs op args

/-- Guards `Edit.choose`, where an instruction may be drawn so many times. -/
def choose (tries length speed registers : Nat) : Guarded Edit := do
  let (pos, newLength) ← choosePlace length (max speed 1)
  let slot ← chooseSlot tries pos newLength (Edit.clampRegisters registers)
  return ⟨pos, slot, newLength⟩

/-- Guards `Program.write`: a buffer that has no room for the slot is doubled, once. -/
def write (p : Program) (edit : Edit) : Except Fault Program :=
  let code := if p.code.size < edit.pos + slotWidth then p.code ++ Array.replicate p.code.size 0
    else p.code
  if edit.pos + slotWidth ≤ code.size ∧ Code.IsLength edit.length code.size then
    .ok ⟨Program.store code edit.pos edit.slot.words, edit.length⟩
  else .error (.buffer edit code.size)

/-- Guards `Editor.apply`. -/
def apply (e : Editor) (edit : Edit) : Except Fault Editor := do
  let undo : Undo := ⟨edit.pos, (e.program.slot? edit.pos).getD Slot.zero, e.program.length⟩
  let program ← write e.program edit
  return ⟨program, some undo⟩

/-- Guards `Editor.mutate`, where an instruction may be drawn so many times. -/
def mutate {ρ : Type} [Generator ρ] (tries : Nat) (e : Editor) (speed registers : Nat) (g : ρ) :
    Except Fault (Nat × Editor × ρ) := do
  let (edit, g) := Choice.run (choose tries e.program.length speed registers) g
  let edit ← edit
  let edited ← apply e edit
  return (edit.pos, edited, g)

/-! ## A guarded computation and the one it guards -/

/-- The guarded computation draws from the same ranges as the other one, none of which is empty, and has
the same result for the same numbers; unless it stops for want of an instruction, which needs that
`stops` holds. -/
inductive Agrees (stops : Prop) {α : Type} : Choice (Except Fault α) → Choice α → Prop where
  | done (a : α) : Agrees stops (.done (.ok a)) (.done a)
  | stop (h : stops) (d : Choice α) : Agrees stops (.done (.error .redraw)) d
  | draw {r : Range} {c : Nat → Choice (Except Fault α)} {d : Nat → Choice α} (hr : 0 < r.size)
      (h : ∀ v < r.size, Agrees stops (c v) (d v)) : Agrees stops (.draw r c) (.draw r d)

variable {stops : Prop} {α β : Type}

theorem Agrees.mono {stops' : Prop} {c : Choice (Except Fault α)} {d : Choice α}
    (h : Agrees stops c d) (hstops : stops → stops') : Agrees stops' c d := by
  induction h with
  | done a => exact .done a
  | stop h d => exact .stop (hstops h) d
  | draw hr _ ih => exact .draw hr ih

/-- What agrees goes on to agree, if it does for every result that is ensured. -/
theorem Agrees.bind {P : α → Prop} {c : Guarded α} {d : Choice α} {f : α → Guarded β}
    {f' : α → Choice β} (h : Agrees stops c d) (hd : d.Ensures P)
    (hf : ∀ a, P a → Agrees stops (f a) (f' a)) : Agrees stops (c >>= f : Guarded β) (d >>= f') := by
  induction h with
  | done a => exact hf a hd
  | stop h d => exact .stop h _
  | draw hr _ ih => exact .draw hr fun v hv => ih v hv (hd.2 v hv)

/-- On a generator, both computations have the same result and leave the same generator, or the guarded
one stops. -/
theorem Agrees.run {ρ : Type} [Generator ρ] {c : Choice (Except Fault α)} {d : Choice α}
    (h : Agrees stops c d) (g : ρ) :
    c.run g = (.ok (d.run g).1, (d.run g).2) ∨ stops ∧ (c.run g).1 = .error .redraw := by
  induction h generalizing g with
  | done a => exact .inl rfl
  | stop h d => exact .inr ⟨h, rfl⟩
  | draw hr _ ih =>
      -- a generator gives a number of the range, also when it is given up
      exact ih _ (Range.sample_lt hr patience g) _

theorem ok_bind {x : Except Fault α} {a : α} (h : x = .ok a) (f : α → Guarded β) :
    (liftM x : Guarded α) >>= f = f a := by
  rw [h]
  rfl

theorem agrees_number {r : Range} (hr : 0 < r.size) : Agrees stops (number r) (Choice.number r) := by
  rw [number, if_pos hr]
  exact .draw hr fun v _ => .done v

/-- Both computations go on with the same number. -/
theorem agrees_number_bind {r : Range} (hr : 0 < r.size) {f : Nat → Guarded α} {f' : Nat → Choice α}
    (h : ∀ v < r.size, Agrees stops (f v) (f' v)) :
    Agrees stops (number r >>= f : Guarded α) (Choice.number r >>= f') :=
  (agrees_number hr).bind (Choice.ensures_number hr) h

theorem agrees_word {n : Nat} (h : n < 2 ^ 16) :
    Agrees stops (liftM (word n) : Guarded Word) (pure (UInt16.ofNat n)) := by
  rw [word, if_pos h]
  exact .done _

/-! ## Places and instructions -/

/-- How rarely a program grows is a number of 64 bits, if the speed has 32. -/
theorem mul_speed_lt {length speed : Nat} (hspeed : speed < 2 ^ 32)
    (hroom : length + slotWidth ≤ Program.maxLength) : length * max speed 1 < 2 ^ 64 := by
  have hshort : length ≤ 2 ^ 16 := by
    simp only [slotWidth, Program.maxLength] at hroom
    omega
  have hslow : max speed 1 < 2 ^ 32 := by omega
  calc length * max speed 1
      ≤ 2 ^ 16 * 2 ^ 32 := Nat.mul_le_mul hshort (Nat.le_of_lt hslow)
    _ < 2 ^ 64 := by decide

theorem agrees_choosePlaceInside {length : Nat} (h : 0 < length / slotWidth) :
    Agrees stops (choosePlaceInside length) (Edit.choosePlaceInside length) := by
  have hrange : 0 < (Range.large (length / slotWidth)).size := h
  exact agrees_number_bind hrange fun i _ => .done (i * slotWidth, length)

theorem agrees_choosePlace {length speed : Nat} (hspeed : speed < 2 ^ 32) :
    Agrees stops (choosePlace length (max speed 1)) (Edit.choosePlace length (max speed 1)) := by
  unfold choosePlace Edit.choosePlace
  by_cases hempty : length / slotWidth = 0
  · rw [if_pos hempty, if_pos hempty]
    exact .done _
  · rw [if_neg hempty, if_neg hempty]
    have hslots : 0 < length / slotWidth := Nat.pos_of_ne_zero hempty
    by_cases hroom : length + slotWidth ≤ Program.maxLength
    · have hproduct : product length (max speed 1) = .ok (length * max speed 1) :=
        if_pos (mul_speed_lt hspeed hroom)
      have hrange : 0 < (Range.large (length * max speed 1)).size :=
        Nat.mul_pos (Nat.pos_of_div_pos hslots) (Nat.le_max_right speed 1)
      rw [if_pos hroom, if_pos hroom, ok_bind hproduct]
      refine agrees_number_bind hrange fun v _ => ?_
      by_cases hv : v = 0
      · rw [if_pos hv, if_pos hv]
        exact .done _
      · rw [if_neg hv, if_neg hv]
        exact agrees_choosePlaceInside hslots
    · rw [if_neg hroom, if_neg hroom]
      exact agrees_choosePlaceInside hslots

theorem opcode_eq_ok {i : Nat} (h : i < Opcode.count) : opcode i = .ok (Opcode.all.getD i .set) := by
  have hi : i < Opcode.all.size := h
  rw [opcode, Array.getElem?_eq_getElem hi, Array.getD_eq_getD_getElem?, Array.getElem?_eq_getElem hi]
  rfl

/-- An instruction is drawn again only where there is no room for a jump; so a computation that may do it
more often agrees as well. -/
theorem agrees_chooseOpcode {canJump : Bool} {tries n : Nat} (hle : tries ≤ n)
    (hfirst : tries = 0 → canJump = false) :
    Agrees (canJump = false) (chooseOpcode canJump tries) (Edit.chooseOpcode canJump n) := by
  induction tries generalizing n with
  | zero => exact .stop (hfirst rfl) _
  | succ tries ih =>
      obtain ⟨n, rfl⟩ := Nat.exists_eq_add_of_lt (Nat.lt_of_lt_of_le tries.succ_pos hle)
      have hrange : 0 < (Range.large Opcode.count).size := by decide
      refine agrees_number_bind hrange fun i hi => ?_
      rw [ok_bind (opcode_eq_ok hi)]
      dsimp only
      split
      · -- only a jump is refused, and only where there is no room for one
        rename_i hrefused
        have hstuck : canJump = false := by simpa using (Bool.and_eq_true_iff.mp hrefused).2
        exact ih (Nat.le_of_succ_le_succ hle) fun _ => hstuck
      · exact .done _

/-! ## Arguments -/

theorem agrees_chooseArg {pos last registers : Nat} {kind : OperandKind} (hregisters : 0 < registers)
    (hfits : registers ≤ registerCount) (hlast : last ≤ Program.maxLength)
    (hjump : kind = .target → pos + slotWidth ≤ last) :
    Agrees stops (chooseArg pos last registers kind) (Edit.chooseArg pos last registers kind) := by
  cases kind with
  | register =>
      have hrange : 0 < (Range.small registers).size := hregisters
      refine agrees_number_bind hrange fun v hv => ?_
      have hv : v < registers := hv
      refine agrees_word ?_
      simp only [registerCount] at hfits
      omega
  | immediate =>
      have hrange : 0 < Range.word.size := by decide
      exact agrees_number_bind hrange fun v hv => agrees_word hv
  | target =>
      have hroom := hjump rfl
      have hdifference : difference last pos = .ok (last - pos) := if_pos (by omega)
      have hrange : 0 < (Range.large ((last - pos) / slotWidth)).size := by
        simp only [Range.size, slotWidth] at *
        omega
      rw [chooseArg, ok_bind hdifference]
      refine agrees_number_bind hrange fun k hk => agrees_word ?_
      have hk : k < (last - pos) / slotWidth := hk
      -- the target is at most `last`
      simp only [slotWidth, Program.maxLength] at *
      omega

theorem agrees_chooseArgs {pos last registers : Nat} {kinds : List OperandKind}
    (hregisters : 0 < registers) (hfits : registers ≤ registerCount)
    (hlast : last ≤ Program.maxLength) (hpos : pos % slotWidth = 0)
    (hjump : .target ∈ kinds → pos + slotWidth ≤ last) :
    Agrees stops (chooseArgs pos last registers kinds) (Edit.chooseArgs pos last registers kinds) := by
  induction kinds with
  | nil => exact .done _
  | cons kind kinds ih =>
      have hhead : kind = .target → pos + slotWidth ≤ last :=
        fun hkind => hjump (hkind ▸ List.mem_cons_self)
      have htail : .target ∈ kinds → pos + slotWidth ≤ last :=
        fun hmem => hjump (List.mem_cons_of_mem _ hmem)
      refine (agrees_chooseArg hregisters hfits hlast hhead).bind
        (Edit.ensures_chooseArg hregisters hfits hlast hpos hhead) fun w _ => ?_
      refine (ih htail).bind (Edit.ensures_chooseArgs hregisters hfits hlast hpos htail) fun ws _ => ?_
      exact .done _

theorem agrees_chooseSlot {tries pos length registers : Nat} (htries : 0 < tries)
    (hpatience : tries ≤ patience) (hregisters : 0 < registers) (hfits : registers ≤ registerCount)
    (hpos : pos % slotWidth = 0) :
    Agrees (¬ pos + slotWidth ≤ min length Program.maxLength) (chooseSlot tries pos length registers)
      (Edit.chooseSlot pos length registers) := by
  have hopcode : Agrees (¬ pos + slotWidth ≤ min length Program.maxLength)
      (chooseOpcode (pos + slotWidth ≤ min length Program.maxLength) tries)
      (Edit.chooseOpcode (pos + slotWidth ≤ min length Program.maxLength) patience) :=
    (agrees_chooseOpcode hpatience fun h => absurd h (Nat.ne_of_gt htries)).mono of_decide_eq_false
  refine hopcode.bind (Edit.ensures_chooseOpcode _ patience) fun op hop => ?_
  have hjump : .target ∈ op.layout → pos + slotWidth ≤ min length Program.maxLength :=
    fun hmem => of_decide_eq_true (hop (List.contains_iff_mem.mpr hmem))
  exact (agrees_chooseArgs hregisters hfits (Nat.min_le_right _ _) hpos hjump).bind
    (Edit.ensures_chooseArgs hregisters hfits (Nat.min_le_right _ _) hpos hjump) fun ws _ => .done _

/-- A guarded edit is the edit, unless it stops for want of an instruction in a program whose end no
jump can reach. -/
theorem agrees_choose {tries length speed : Nat} (htries : 0 < tries) (hpatience : tries ≤ patience)
    (hlength : length % slotWidth = 0) (hspeed : speed < 2 ^ 32) (registers : Nat) :
    Agrees (Program.maxLength < length) (choose tries length speed registers)
      (Edit.choose length speed registers) := by
  refine (agrees_choosePlace hspeed).bind (Edit.ensures_choosePlace hlength (Nat.le_max_right speed 1))
    fun ⟨pos, newLength⟩ ⟨hplace, hpos⟩ => ?_
  have hpositive := Edit.clampRegisters_pos registers
  have hfits := Edit.clampRegisters_le registers
  have hslot : Agrees (Program.maxLength < length)
      (chooseSlot tries pos newLength (Edit.clampRegisters registers))
      (Edit.chooseSlot pos newLength (Edit.clampRegisters registers)) :=
    (agrees_chooseSlot htries hpatience hpositive hfits hpos).mono fun hnone =>
      Nat.lt_of_not_le fun hreach => hnone (hplace.room hlength hpos hreach)
  exact hslot.bind (Edit.ensures_chooseSlot hpositive hfits hpos) fun s _ => .done _

/-! ## Writing -/

/-- A sound program has room for an edit in its buffer, doubled once or not at all. -/
theorem doubled_eq_reserve {p : Program} (hp : p.IsSound) {pos : Nat} (hpos : pos ≤ p.length) :
    (if p.code.size < pos + slotWidth then p.code ++ Array.replicate p.code.size 0 else p.code) =
      Program.reserve p.code (pos + slotWidth) := by
  have hlength := hp.valid.isLength.2
  have hslot := hp.capacity.slotWidth_le
  by_cases hsmall : p.code.size < pos + slotWidth
  · rw [if_pos hsmall, Program.reserve_eq_append hslot hsmall (by omega)]
  · rw [if_neg hsmall, Program.reserve_of_le (Nat.not_lt.mp hsmall)]

theorem capacity_write {p : Program} (hp : p.IsSound) {pos : Nat} (hpos : pos ≤ p.length) (s : Slot)
    (length : Nat) : (p.write pos s length).capacity = p.capacity ∨
      (p.write pos s length).capacity = 2 * p.capacity := by
  rw [Program.capacity, Program.write, Program.size_store, ← doubled_eq_reserve hp hpos]
  split
  · rw [Array.size_append, Array.size_replicate, ← Nat.two_mul]
    exact .inr rfl
  · exact .inl rfl

theorem apply_eq_ok {e : Editor} (he : e.program.IsSound) {edit : Edit} {registers : Nat}
    (hedit : edit.IsLegal e.program.length registers) (hregisters : registers ≤ registerCount) :
    apply e edit = .ok (e.apply edit) := by
  have hlength := (Editor.isSound_apply he hedit hregisters).program.valid.isLength
  simp only [Editor.apply, Program.write, Program.size_store] at hlength
  have hwrite : write e.program edit =
      .ok (e.program.write edit.pos edit.slot edit.length) := by
    rw [write, doubled_eq_reserve he hedit.place.pos_le]
    exact if_pos ⟨Program.le_size_reserve _ _, hlength⟩
  rw [apply, hwrite]
  rfl

variable {ρ : Type} [Generator ρ]

theorem mutate_eq {e : Editor} (he : e.program.IsSound) {tries speed : Nat} (htries : 0 < tries)
    (hpatience : tries ≤ patience) (hspeed : speed < 2 ^ 32) (registers : Nat) (g : ρ) :
    mutate tries e speed registers g = .ok (e.mutate speed registers g) ∨
      Program.maxLength < e.program.length ∧ mutate tries e speed registers g = .error .redraw := by
  have hlength := he.valid.isLength.1
  have hlegal := (Edit.ensures_choose hlength speed registers).run g
  rcases (agrees_choose htries hpatience hlength hspeed registers).run g with hrun | ⟨hlong, hrun⟩
  · left
    have happly := apply_eq_ok he hlegal (Edit.clampRegisters_le registers)
    simp only [mutate, hrun, happly, bind, Except.bind]
    rfl
  · right
    refine ⟨hlong, ?_⟩
    simp only [mutate, hrun, bind, Except.bind]

/-- **No step of an edit is at fault.** Whatever the registers, the speed of 32 bits and the generator, an
edit of a sound program whose every step is guarded is the edit itself, and its buffer is kept or doubled
once. There is one exception: in a program so long that no jump can reach its end, the guarded edit may
stop because none of the instructions drawn will do. In a program that is not so long, the first one
will do. -/
theorem mutate_guarded {e : Editor} (he : e.program.IsSound) {speed : Nat} (hspeed : speed < 2 ^ 32)
    (registers : Nat) (g : ρ) :
    (∀ tries, 0 < tries → tries ≤ patience →
      mutate tries e speed registers g = .ok (e.mutate speed registers g) ∨
        Program.maxLength < e.program.length ∧
          mutate tries e speed registers g = .error .redraw) ∧
    (e.program.length ≤ Program.maxLength →
      mutate 1 e speed registers g = .ok (e.mutate speed registers g)) ∧
    ((e.mutate speed registers g).2.1.program.capacity = e.program.capacity ∨
      (e.mutate speed registers g).2.1.program.capacity = 2 * e.program.capacity) := by
  refine ⟨fun tries htries hpatience => mutate_eq he htries hpatience hspeed registers g,
    fun hreach => ?_, ?_⟩
  · rcases mutate_eq he Nat.one_pos (by decide) hspeed registers g with heq | ⟨hlong, -⟩
    · exact heq
    · exact absurd hreach (Nat.not_le_of_lt hlong)
  · have hlegal := (Edit.ensures_choose he.valid.isLength.1 speed registers).run g
    exact capacity_write he hlegal.place.pos_le _ _

theorem mutate_guarded_crowded : Editor.crowded.IsSound ∧
    mutate 1 (.ofProgram Editor.crowded) 1 8 Editor.appending =
      .ok ((Editor.ofProgram Editor.crowded).mutate 1 8 Editor.appending) ∧
    ((Editor.ofProgram Editor.crowded).mutate 1 8 Editor.appending).2.1.program.capacity = 128 := by
  have hsound : Editor.crowded.IsSound := Editor.obtained_crowded.isSound
  have hspeed : 1 < 2 ^ 32 := by decide
  obtain ⟨-, hfirst, hcapacity⟩ :=
    mutate_guarded (e := .ofProgram Editor.crowded) hsound hspeed 8 Editor.appending
  refine ⟨hsound, hfirst (by decide), ?_⟩
  rcases hcapacity with hkept | hdoubled
  · revert hkept
    decide +kernel
  · exact hdoubled

end Guarded

end BytecodeSearch
