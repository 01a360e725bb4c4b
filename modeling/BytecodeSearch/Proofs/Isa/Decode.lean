import BytecodeSearch.Isa.Instr

/-!
# Decoding and checking agree

The checker reads a slot against the layout of its opcode, the decoder reads each instruction
with its own list of operands. `map_decodeArgs` shows that the two find the same fault or none,
one shape of operands at a time.

What is decoded has the operands that the argument words name (`decode2_eq_ok` and the lemmas beside
it), and neither the checker nor the decoder looks at an argument word that the layout does not have
(`check_congr`, `decodeArgs_congr`).
-/

set_option autoImplicit false

namespace BytecodeSearch

/-- A computation with two steps succeeds if both do. -/
theorem bind_eq_ok_iff {ε α β : Type} {x : Except ε α} {f : α → Except ε β} {b : β} :
    x >>= f = .ok b ↔ ∃ a, x = .ok a ∧ f a = .ok b := by
  cases x with
  | error e => simp [bind, Except.bind]
  | ok a => simp [bind, Except.bind]

theorem Reg.read_eq_ok_iff {pos : Nat} {w : Word} {r : Reg} :
    Reg.read pos w = .ok r ↔ r.val = w.toNat := by
  simp only [Reg.read, Reg.ofWord?]
  by_cases hw : w.toNat < 8
  · simp only [dif_pos hw, Except.ok.injEq, Fin.ext_iff]
    exact eq_comm
  · have hr := r.isLt
    simp only [dif_neg hw, reduceCtorEq, false_iff]
    omega

theorem Target.word_of_read {pos : Nat} {w : Word} {t : Target pos}
    (h : Target.read pos w = .ok t) : t.word = w := by
  simp only [Target.read] at h
  split at h
  · split at h
    · rw [← Except.ok.inj h]
    · cases h
  · cases h

namespace Slot

variable {pos : Nat}

/-! ## One shape of operands at a time -/

theorem map_decode1 (w : Word) (f : Reg → Instr pos) :
    (do return f (← Reg.read pos w) : Except CodeError (Instr pos)).map (fun _ => ()) =
      checkArgs pos [.register] [w] := by
  simp only [checkArgs, OperandKind.check]
  cases Reg.read pos w <;> rfl

theorem map_decode2 (s : Slot) (f : Reg → Reg → Instr pos) :
    (s.decode2 f).map (fun _ => ()) = checkArgs pos [.register, .register] s.args := by
  simp only [decode2, args, checkArgs, OperandKind.check]
  cases Reg.read pos s.arg1 with
  | error e => rfl
  | ok a => cases Reg.read pos s.arg2 <;> rfl

theorem map_decode3 (s : Slot) (f : Reg → Reg → Reg → Instr pos) :
    (s.decode3 f).map (fun _ => ()) =
      checkArgs pos [.register, .register, .register] s.args := by
  simp only [decode3, args, checkArgs, OperandKind.check]
  cases Reg.read pos s.arg1 with
  | error e => rfl
  | ok a =>
      cases Reg.read pos s.arg2 with
      | error e => rfl
      | ok b => cases Reg.read pos s.arg3 <;> rfl

theorem map_decodeCompare (s : Slot) (rel : Comparison) :
    (s.decodeCompare rel : Except CodeError (Instr pos)).map (fun _ => ()) =
      checkArgs pos [.register, .register, .target] s.args := by
  simp only [decodeCompare, args, checkArgs, OperandKind.check]
  cases Reg.read pos s.arg1 with
  | error e => rfl
  | ok a =>
      cases Reg.read pos s.arg2 with
      | error e => rfl
      | ok b => cases Target.read pos s.arg3 <;> rfl

theorem map_decodeTest (s : Slot) (zero : Bool) :
    (s.decodeTest zero : Except CodeError (Instr pos)).map (fun _ => ()) =
      checkArgs pos [.register, .target] s.args := by
  simp only [decodeTest, args, checkArgs, OperandKind.check]
  cases Reg.read pos s.arg1 with
  | error e => rfl
  | ok a => cases Target.read pos s.arg2 <;> rfl

/-! ## All instructions -/

/-- Decoding the arguments of a known instruction fails exactly as checking them does. -/
theorem map_decodeArgs (pos : Nat) (s : Slot) (op : Opcode) :
    (s.decodeArgs pos op).map (fun _ => ()) = checkArgs pos op.layout s.args := by
  cases op with
  | set => exact map_decode1 s.arg2 _
  | inc | dec | echo => exact map_decode1 s.arg1 _
  | jump =>
      simp only [decodeArgs, Opcode.layout, args, checkArgs, OperandKind.check]
      cases Target.read pos s.arg1 <;> rfl
  | jumpZero | jumpNonzero => exact map_decodeTest s _
  | jumpGreater | jumpLess | jumpEqual => exact map_decodeCompare s _
  | out | step | eat | clone => exact map_decode3 s _
  | move | add | sub | read | write | or | and | xor | not | mul | div | rem | shl | shr | ask =>
      exact map_decode2 s _

/-- A slot that passes the check decodes. -/
theorem exists_decodeArgs_of_check {s : Slot} {op : Opcode} (h : s.check pos = .ok op) :
    Opcode.ofWord? s.opcode = some op ∧ ∃ i, s.decodeArgs pos op = .ok i := by
  simp only [check] at h
  cases hop : Opcode.ofWord? s.opcode with
  | none => simp [hop] at h
  | some op' =>
      have hmap := map_decodeArgs pos s op'
      cases hargs : checkArgs pos op'.layout s.args with
      | error e => simp [hop, hargs, bind, Except.bind] at h
      | ok _ =>
          have heq : op' = op := by
            simpa [hop, hargs, bind, Except.bind, pure, Except.pure] using h
          subst heq
          refine ⟨rfl, ?_⟩
          cases hd : s.decodeArgs pos op' with
          | error e => simp [hd, hargs, Except.map] at hmap
          | ok i => exact ⟨i, rfl⟩

/-- What decodes to an `in` instruction is the slot of one, and its operands are the registers the
argument words name. -/
theorem eq_ask_of_decodeArgs {s : Slot} {op : Opcode} {query dst : Reg}
    (h : s.decodeArgs pos op = .ok (.ask query dst)) :
    op = .ask ∧ Reg.read pos s.arg1 = .ok query ∧ Reg.read pos s.arg2 = .ok dst := by
  cases op with
  | ask =>
      simp only [decodeArgs, decode2, bind_eq_ok_iff] at h
      obtain ⟨a, ha, b, hb, hi⟩ := h
      simp only [pure, Except.pure, Except.ok.injEq, Instr.ask.injEq] at hi
      exact ⟨rfl, by rw [ha, hi.1], by rw [hb, hi.2]⟩
  | _ =>
      simp [decodeArgs, decode2, decode3, decodeCompare, decodeTest, bind_eq_ok_iff, pure,
        Except.pure] at h

/-! ## What is decoded -/

theorem decode1_eq_ok {w : Word} {f : Reg → Instr pos} {i : Instr pos}
    (h : (do return f (← Reg.read pos w) : Except CodeError (Instr pos)) = .ok i) :
    ∃ a : Reg, a.val = w.toNat ∧ i = f a := by
  obtain ⟨a, ha, hi⟩ := bind_eq_ok_iff.mp h
  exact ⟨a, Reg.read_eq_ok_iff.mp ha, (Except.ok.inj hi).symm⟩

theorem decode2_eq_ok {s : Slot} {f : Reg → Reg → Instr pos} {i : Instr pos}
    (h : s.decode2 f = .ok i) :
    ∃ a b : Reg, a.val = s.arg1.toNat ∧ b.val = s.arg2.toNat ∧ i = f a b := by
  obtain ⟨a, ha, h⟩ := bind_eq_ok_iff.mp h
  obtain ⟨b, hb, hi⟩ := bind_eq_ok_iff.mp h
  exact ⟨a, b, Reg.read_eq_ok_iff.mp ha, Reg.read_eq_ok_iff.mp hb, (Except.ok.inj hi).symm⟩

theorem decode3_eq_ok {s : Slot} {f : Reg → Reg → Reg → Instr pos} {i : Instr pos}
    (h : s.decode3 f = .ok i) :
    ∃ a b c : Reg, a.val = s.arg1.toNat ∧ b.val = s.arg2.toNat ∧ c.val = s.arg3.toNat ∧
      i = f a b c := by
  obtain ⟨a, ha, h⟩ := bind_eq_ok_iff.mp h
  obtain ⟨b, hb, h⟩ := bind_eq_ok_iff.mp h
  obtain ⟨c, hc, hi⟩ := bind_eq_ok_iff.mp h
  exact ⟨a, b, c, Reg.read_eq_ok_iff.mp ha, Reg.read_eq_ok_iff.mp hb, Reg.read_eq_ok_iff.mp hc,
    (Except.ok.inj hi).symm⟩

theorem decodeCompare_eq_ok {s : Slot} {rel : Comparison} {i : Instr pos}
    (h : s.decodeCompare rel = .ok i) :
    ∃ (a b : Reg) (t : Target pos), a.val = s.arg1.toNat ∧ b.val = s.arg2.toNat ∧
      t.word = s.arg3 ∧ i = .jumpIf rel a b t := by
  obtain ⟨a, ha, h⟩ := bind_eq_ok_iff.mp h
  obtain ⟨b, hb, h⟩ := bind_eq_ok_iff.mp h
  obtain ⟨t, ht, hi⟩ := bind_eq_ok_iff.mp h
  exact ⟨a, b, t, Reg.read_eq_ok_iff.mp ha, Reg.read_eq_ok_iff.mp hb, Target.word_of_read ht,
    (Except.ok.inj hi).symm⟩

theorem decodeTest_eq_ok {s : Slot} {zero : Bool} {i : Instr pos}
    (h : s.decodeTest zero = .ok i) :
    ∃ (a : Reg) (t : Target pos), a.val = s.arg1.toNat ∧ t.word = s.arg2 ∧
      i = .jumpTest zero a t := by
  obtain ⟨a, ha, h⟩ := bind_eq_ok_iff.mp h
  obtain ⟨t, ht, hi⟩ := bind_eq_ok_iff.mp h
  exact ⟨a, t, Reg.read_eq_ok_iff.mp ha, Target.word_of_read ht, (Except.ok.inj hi).symm⟩

theorem decodeArgs_jump_eq_ok {s : Slot} {i : Instr pos} (h : s.decodeArgs pos .jump = .ok i) :
    ∃ t : Target pos, t.word = s.arg1 ∧ i = .jump t := by
  obtain ⟨t, ht, hi⟩ := bind_eq_ok_iff.mp h
  exact ⟨t, Target.word_of_read ht, (Except.ok.inj hi).symm⟩

/-! ## What is not looked at -/

/-- Slots of the same opcode whose argument words are the same as far as its layout goes. -/
def Alike (s s' : Slot) : Prop :=
  s.opcode = s'.opcode ∧
    ∀ op, Opcode.ofWord? s.opcode = some op → op.layout.zip s.args = op.layout.zip s'.args

theorem checkArgs_congr {kinds : List OperandKind} {ws ws' : List Word}
    (h : kinds.zip ws = kinds.zip ws') : checkArgs pos kinds ws = checkArgs pos kinds ws' := by
  induction kinds generalizing ws ws' with
  | nil => simp only [checkArgs]
  | cons kind kinds ih =>
      cases ws with
      | nil =>
          cases ws' with
          | nil => rfl
          | cons w' ws' => simp at h
      | cons w ws =>
          cases ws' with
          | nil => simp at h
          | cons w' ws' =>
              simp only [List.zip_cons_cons, List.cons.injEq, Prod.mk.injEq, true_and] at h
              obtain ⟨rfl, hws⟩ := h
              simp only [checkArgs, ih hws]

theorem check_congr {s s' : Slot} (h : s.Alike s') : s.check pos = s'.check pos := by
  obtain ⟨hopcode, hargs⟩ := h
  simp only [check, ← hopcode]
  cases hop : Opcode.ofWord? s.opcode with
  | none => rfl
  | some op => simp only [checkArgs_congr (hargs op hop)]

theorem decodeArgs_congr {s s' : Slot} {op : Opcode}
    (h : op.layout.zip s.args = op.layout.zip s'.args) :
    s.decodeArgs pos op = s'.decodeArgs pos op := by
  cases op with
  | inc | dec | echo | jump =>
      have h1 : s.arg1 = s'.arg1 := by simpa [Opcode.layout, args] using h
      simp only [decodeArgs, h1]
  | jumpGreater | jumpLess | jumpEqual | out | step | eat | clone =>
      obtain ⟨h1, h2, h3⟩ : s.arg1 = s'.arg1 ∧ s.arg2 = s'.arg2 ∧ s.arg3 = s'.arg3 := by
        simpa [Opcode.layout, args] using h
      simp only [decodeArgs, decode3, decodeCompare, h1, h2, h3]
  | set | jumpZero | jumpNonzero | move | add | sub | read | write | or | and | xor | not | mul
  | div | rem | shl | shr | ask =>
      obtain ⟨h1, h2⟩ : s.arg1 = s'.arg1 ∧ s.arg2 = s'.arg2 := by
        simpa [Opcode.layout, args] using h
      simp only [decodeArgs, decode2, decodeTest, h1, h2]

/-! ## Slots that are made -/

/-- The argument words a slot is made of, with zeros behind them. -/
theorem args_ofArgs (op : Opcode) {ws : List Word} (h : ws.length ≤ 3) :
    (ofArgs op ws).args = ws ++ List.replicate (3 - ws.length) 0 := by
  match ws, h with
  | [], _ => rfl
  | [_], _ => rfl
  | [_, _], _ => rfl
  | [_, _, _], _ => rfl

theorem zip_args_ofArgs {op : Opcode} {ws : List Word} (h : op.layout.length = ws.length) :
    op.layout.zip (ofArgs op ws).args = op.layout.zip ws := by
  rw [args_ofArgs op (h ▸ op.length_layout_le), ← List.append_nil op.layout, List.zip_append h,
    List.append_nil, List.zip_nil_left, List.append_nil]

/-- The slot of a `set` instruction decodes to it. -/
theorem decodeArgs_set {w value : Word} {dst : Reg} (h : Reg.read pos w = .ok dst) :
    (Slot.ofArgs .set [value, w]).decodeArgs pos .set = .ok (.set value dst) := by
  simp only [decodeArgs, bind_eq_ok_iff]
  exact ⟨dst, h, rfl⟩

end Slot

end BytecodeSearch
