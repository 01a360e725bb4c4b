import BytecodeSearch.Proofs.Assembly.Listings
import BytecodeSearch.Proofs.Machine.Protocol

/-!
# Words that do nothing

Most words of a code buffer mean something, but not all of them: the argument words that an
instruction does not use and the words behind the program may hold anything. `Code.SameUsed` relates
two buffers that differ in such words only. Slot by slot they are alike (`Code.SameUsed.alike`), and
nothing that reads code tells slots apart that are alike: not the check, not the listing and not a
step of the machine (`step_eq_of_alike`). So a host cannot tell the buffers apart whatever calls it
makes (`unused_words_inert`).
-/

set_option autoImplicit false

namespace BytecodeSearch

namespace Code

/-- The first `length` words of two buffers have the same opcode words, and the same words wherever
an instruction of the first uses one. -/
structure SameUsed (code code' : Array Word) (length : Nat) : Prop where
  /-- The opcode words, also those that no instruction has. -/
  opcodes : ∀ pos < length, pos % slotWidth = 0 → code.getD pos 0 = code'.getD pos 0
  /-- The words that are used. -/
  used : ∀ i < length, IsUsed code i → code.getD i 0 = code'.getD i 0

variable {code code' : Array Word} {length : Nat}

theorem SameUsed.arg (h : SameUsed code code' length) (hlength : length % slotWidth = 0) {pos : Nat}
    (hlt : pos < length) (hpos : pos % slotWidth = 0) {op : Opcode}
    (hop : Opcode.ofWord? (code.getD pos 0) = some op) {k : Nat} (hk : k < op.layout.length) :
    code.getD (pos + (k + 1)) 0 = code'.getD (pos + (k + 1)) 0 := by
  have hthree := op.length_layout_le
  have hmod : (pos + (k + 1)) % slotWidth = k + 1 := by
    simp only [slotWidth] at *
    omega
  refine h.used _ ?_ ⟨op, ?_, ?_⟩
  · simp only [slotWidth] at *
    omega
  · rwa [hmod, Nat.add_sub_cancel]
  · rw [hmod]
    exact hk

/-- Buffers with the same used words have slots that are alike. -/
theorem SameUsed.alike (h : SameUsed code code' length) (hlength : length % slotWidth = 0)
    {pos : Nat} (hlt : pos < length) (hpos : pos % slotWidth = 0) :
    (Slot.read code pos).Alike (Slot.read code' pos) := by
  refine ⟨h.opcodes pos hlt hpos, fun op hop => ?_⟩
  have harg : ∀ k < op.layout.length, (Slot.read code pos).args[k]? =
      (Slot.read code' pos).args[k]? := by
    intro k hk
    have hword := h.arg hlength hlt hpos hop hk
    have hthree := op.length_layout_le
    obtain rfl | rfl | rfl : k = 0 ∨ k = 1 ∨ k = 2 := by omega
    all_goals exact congrArg some hword
  -- place by place: a word for every kind of the layout, and nothing behind
  refine List.ext_getElem? fun k => ?_
  simp only [List.zip_eq_zipWith, List.getElem?_zipWith']
  by_cases hk : k < op.layout.length
  · rw [harg k hk]
  · rw [List.getElem?_eq_none (Nat.not_lt.mp hk)]
    rfl

end Code

/-! ## Checking and listing -/

theorem mapM_congr {ε α β : Type} {f g : α → Except ε β} {l : List α} (h : ∀ a ∈ l, f a = g a) :
    l.mapM f = l.mapM g := by
  induction l with
  | nil => rfl
  | cons a l ih =>
      rw [List.mapM_cons, List.mapM_cons, h a List.mem_cons_self,
        ih fun b hb => h b (List.mem_cons_of_mem a hb)]

section

variable {code code' : Array Word} {length : Nat}

/-- Code with the same used words passes the check or has the same first fault, and its slots hold
the same instructions. -/
theorem Code.opcodes_congr (h : SameUsed code code' length) (hlength : IsLength length code.size)
    (hlength' : IsLength length code'.size) : opcodes code length = opcodes code' length := by
  simp only [opcodes, checkLength_eq_ok_iff.mpr hlength, checkLength_eq_ok_iff.mpr hlength']
  show (offsets length).mapM _ = (offsets length).mapM _
  refine mapM_congr fun pos hpos => ?_
  obtain ⟨hlt, haligned⟩ := (mem_offsets hlength.1).mp hpos
  exact Slot.check_congr (h.alike hlength.1 hlt haligned)

theorem Code.validate_congr (h : SameUsed code code' length) (hlength : IsLength length code.size)
    (hlength' : IsLength length code'.size) : validate code length = validate code' length := by
  simp only [validate, opcodes_congr h hlength hlength']

end

namespace Assembly

variable {code code' : Array Word} {length : Nat}

theorem listingLine_congr (i : Nat) {op : Opcode} {s s' : Slot}
    (h : op.layout.zip s.args = op.layout.zip s'.args) :
    listingLine i op s = listingLine i op s' := by
  simp only [listingLine, operandTexts_eq_map, h]

/-- Code with the same used words has the same listing. -/
theorem listing_congr (h : Code.SameUsed code code' length)
    (hlength : Code.IsLength length code.size) (hlength' : Code.IsLength length code'.size) :
    listing code length = listing code' length := by
  simp only [listing, ← Code.opcodes_congr h hlength hlength']
  cases hops : Code.opcodes code length with
  | error e => rfl
  | ok ops =>
      obtain ⟨-, hcount, hcheck⟩ := check_of_opcodes hops
      refine congrArg Except.ok (List.flatMap_congr fun x hx => ?_)
      have hop : ops[x.2]? = some x.1 := List.mem_zipIdx_iff_getElem?.mp hx
      have hlt : slotWidth * x.2 < length := by
        rw [← hcount]
        exact Nat.mul_lt_mul_of_pos_left (List.getElem?_eq_some_iff.mp hop).1 (by decide)
      -- the line of a slot is made from the operands that its instruction has
      exact listingLine_congr x.2 ((h.alike hlength.1 hlt (Nat.mul_mod_right _ _)).2 x.1
        (Slot.exists_decodeArgs_of_check (hcheck x.2 x.1 hop)).1)

end Assembly

namespace Machine

variable {σ : Type} [Sensors σ] {code code' : Array Word} {length : Nat}

/-! ## Running -/

/-- Slots that are alike do the same. -/
theorem step_eq_of_alike {m : Machine σ}
    (h : (Slot.read code m.cursor).Alike (Slot.read code' m.cursor)) :
    step code m = step code' m := by
  obtain ⟨hopcode, hargs⟩ := h
  simp only [step, ← hopcode]
  cases hop : Opcode.ofWord? (Slot.read code m.cursor).opcode with
  | none => rfl
  | some op => simp only [Slot.decodeArgs_congr (hargs op hop)]

theorem start_eq_of_sameUsed (h : Code.SameUsed code code' length)
    (hlength : Code.IsLength length code.size) (hlength' : Code.IsLength length code'.size)
    (cursor : Nat) (m : Machine σ) : start code length cursor m = start code' length cursor m :=
  start_eq_of_step_eq hlength hlength'
    (fun _ below hm => step_eq_of_alike (h.alike hlength.1 below hm)) cursor m

theorem run_eq_of_sameUsed (h : Code.SameUsed code code' length)
    (hlength : Code.IsLength length code.size) (hlength' : Code.IsLength length code'.size)
    (cursor : Nat) (m : Machine σ) : run code length cursor m = run code' length cursor m := by
  simp only [run, start_eq_of_sameUsed h hlength hlength']

theorem resume_eq_of_sameUsed (h : Code.SameUsed code code' length)
    (hlength : Code.IsLength length code.size) (hlength' : Code.IsLength length code'.size)
    (answer : Word) (m : Machine σ) :
    resume code length answer m = resume code' length answer m := by
  simp only [resume, start_eq_of_sameUsed h hlength hlength']

/-! ## Sessions -/

/-- The same call, of this code. -/
def Request.on (code : Array Word) (length : Nat) : Request σ → Request σ
  | .run _ _ cursor output host => .run code length cursor output host
  | .resume _ _ answer output host => .resume code length answer output host
  | request => request

theorem serve_on_congr (h : Code.SameUsed code code' length)
    (hlength : Code.IsLength length code.size) (hlength' : Code.IsLength length code'.size)
    (m : Machine σ) (request : Request σ) :
    m.serve (request.on code length) = m.serve (request.on code' length) := by
  cases request with
  | run _ _ cursor output host =>
      simp only [Request.on, serve, run_eq_of_sameUsed h hlength hlength']
  | resume _ _ answer output host =>
      simp only [Request.on, serve, resume_eq_of_sameUsed h hlength hlength']
  | setRegister | load | reset => rfl

/-- What comes of each call of a session. -/
def responses (requests : List (Request σ)) (m : Machine σ) : List Response :=
  (session requests m).1.map Prod.snd

theorem session_on_congr (h : Code.SameUsed code code' length)
    (hlength : Code.IsLength length code.size) (hlength' : Code.IsLength length code'.size)
    (requests : List (Request σ)) (m : Machine σ) :
    responses (requests.map (Request.on code length)) m =
        responses (requests.map (Request.on code' length)) m ∧
      (session (requests.map (Request.on code length)) m).2 =
        (session (requests.map (Request.on code' length)) m).2 := by
  induction requests generalizing m with
  | nil => exact ⟨rfl, rfl⟩
  | cons request rest ih =>
      have hserve := serve_on_congr h hlength hlength' m request
      obtain ⟨hresponses, hmachine⟩ := ih (m.serve (request.on code' length)).2
      simp only [responses, List.map_cons, session, hserve, List.cons.injEq, true_and] at *
      exact ⟨hresponses, hmachine⟩

/-- **Words that no instruction uses are inert.** Two buffers with the same used words pass the same
check or have the same first fault, and have the same listing. A run and an answer have the same result
on both of them and leave the same machine, with its output and its host. So have all calls of a
session, whose host cannot tell the buffers apart. -/
theorem unused_words_inert (hlength : Code.IsLength length code.size)
    (hlength' : Code.IsLength length code'.size) (h : Code.SameUsed code code' length) :
    Code.validate code length = Code.validate code' length ∧
      Assembly.disassemble code length = Assembly.disassemble code' length ∧
      (∀ cursor (m : Machine σ), run code length cursor m = run code' length cursor m) ∧
      (∀ answer (m : Machine σ), resume code length answer m = resume code' length answer m) ∧
      ∀ (requests : List (Request σ)) (m : Machine σ),
        responses (requests.map (Request.on code length)) m =
            responses (requests.map (Request.on code' length)) m ∧
          (session (requests.map (Request.on code length)) m).2 =
            (session (requests.map (Request.on code' length)) m).2 := by
  refine ⟨Code.validate_congr h hlength hlength', ?_, run_eq_of_sameUsed h hlength hlength',
    resume_eq_of_sameUsed h hlength hlength', session_on_congr h hlength hlength'⟩
  simp only [Assembly.disassemble, Assembly.listing_congr h hlength hlength']

/-- `askOnce` with other words where none is used, and one more behind it. -/
def askOnceStale : Array Word := #[24, 0, 1, 99, 14, 1, 77, 99, 5]

theorem sameUsed_askOnceStale : Code.SameUsed askOnce askOnceStale 8 where
  opcodes := by decide
  used := by decide

/-- The buffers of `askOnce` and `askOnceStale` are different, and both machines come to the answer. -/
theorem askOnceStale_inert : askOnce ≠ askOnceStale ∧
    Code.validate askOnce 8 = Code.validate askOnceStale 8 ∧
      resume askOnceStale 8 7 (run askOnceStale 8 0 (fresh 4 NoHost.mk)).1 =
        resume askOnce 8 7 (run askOnce 8 0 (fresh 4 NoHost.mk)).1 ∧
      (resume askOnceStale 8 7 (run askOnceStale 8 0 (fresh 4 NoHost.mk)).1).1.output = #[7] := by
  have hlength : Code.IsLength 8 askOnce.size := by decide
  have hlength' : Code.IsLength 8 askOnceStale.size := by decide
  obtain ⟨hvalid, -, hrun, hresume, -⟩ :=
    unused_words_inert (σ := NoHost) hlength hlength' sameUsed_askOnceStale
  refine ⟨by decide, hvalid, ?_, by cbv⟩
  rw [← hrun, ← hresume]

end Machine

end BytecodeSearch
