import BytecodeSearch.Assembly.Assemble
import BytecodeSearch.Proofs.Assembly.Labels
import BytecodeSearch.Proofs.Program.Slots
import BytecodeSearch.Proofs.Text.Numerals

/-!
# How instructions are written

`IsOperand` tells in which ways the argument words of an instruction are written, and `IsCommand` in
which ways a slot is: with the mnemonic in capital letters or small ones, and one of these ways for every
argument word that the instruction uses. What is written in one of them is read as the slot, with zeros
in place of the words that are not used (`parseCommand_of_isCommand`).

The lemmas `…_eq_ok_iff` tell for each step of assembling when it succeeds, and with what.
-/

set_option autoImplicit false

namespace BytecodeSearch

/-- A name is read as the instruction whose mnemonic it is, in capital letters or small ones. -/
theorem Opcode.ofMnemonic?_eq_some_iff {name : List Char} {op : Opcode} :
    ofMnemonic? name = some op ↔ name.map Char.toLower = op.mnemonic.toList := by
  unfold ofMnemonic?
  constructor
  · intro h
    have hfound := Array.find?_some h
    simp only [beq_iff_eq] at hfound
    exact hfound.symm
  · intro h
    rw [h]
    cases op <;> rfl

/-- Steps in a row succeed if each of them does. -/
theorem mapM_eq_ok_iff {ε α β : Type} {f : α → Except ε β} {l : List α} {bs : List β} :
    l.mapM f = .ok bs ↔ List.Forall₂ (fun a b => f a = .ok b) l bs := by
  induction l generalizing bs with
  | nil =>
      rw [List.mapM_nil, List.forall₂_nil_left_iff]
      exact ⟨fun h => (Except.ok.inj h).symm, fun h => h ▸ rfl⟩
  | cons a l ih =>
      simp only [List.mapM_cons, bind_eq_ok_iff, List.forall₂_cons_left_iff, ih]
      constructor
      · rintro ⟨b, hb, bs, hbs, h⟩
        exact ⟨b, bs, hb, hbs, (Except.ok.inj h).symm⟩
      · rintro ⟨b, bs, hb, hbs, rfl⟩
        exact ⟨b, hb, bs, hbs, rfl⟩

namespace Assembly

variable {labels : Labels}

/-! ## Targets -/

/-- A token is `l` and the number of a slot. -/
def IsSlotNumber (slot : Nat) (t : Token) : Prop :=
  ∃ number, t = 'l' :: number ∧ Numeral.IsNumeral slot number ∧ slot < 2 ^ 64

theorem slotNumber?_eq_some_iff {slot : Nat} {t : Token} :
    slotNumber? t = some slot ↔ IsSlotNumber slot t := by
  unfold slotNumber? IsSlotNumber
  split
  · rename_i number
    rw [Numeral.read?_eq_some_iff]
    constructor
    · rintro ⟨hnumeral, hbound⟩
      exact ⟨number, rfl, hnumeral, hbound⟩
    · rintro ⟨_, heq, hnumeral, hbound⟩
      obtain ⟨-, rfl⟩ := List.cons.inj heq
      exact ⟨hnumeral, hbound⟩
  · rename_i hother
    constructor
    · intro h
      cases h
    · rintro ⟨number, rfl, -⟩
      exact absurd rfl (hother number)

/-- A slot number stands for the offset of the slot, whatever labels there are; any other token stands
for what the table says. -/
theorem targetOffset_eq_ok_iff {t : Token} {offset : Nat} :
    targetOffset labels t = .ok offset ↔
      (∃ slot, IsSlotNumber slot t ∧ offset = slotWidth * slot) ∨
        (∀ slot, ¬ IsSlotNumber slot t) ∧ labels[t]? = some offset := by
  simp only [← slotNumber?_eq_some_iff]
  unfold targetOffset
  cases slotNumber? t with
  | some slot =>
      simp only [Except.ok.injEq, Option.some.injEq, exists_eq_left', Nat.mul_comm slot slotWidth]
      exact ⟨fun h => .inl h.symm, fun h => h.elim Eq.symm fun h => absurd rfl (h.1 slot)⟩
  | none =>
      cases labels[t]? with
      | some found => simp
      | none => simp

/-- A target is the word that is the offset it stands for. -/
theorem parseTarget_eq_ok_iff {t : Token} {w : Word} :
    parseTarget labels t = .ok w ↔ targetOffset labels t = .ok w.toNat := by
  simp only [parseTarget, bind_eq_ok_iff]
  constructor
  · rintro ⟨offset, hoffset, h⟩
    by_cases hfits : offset < wordBound
    · rw [if_pos hfits] at h
      rw [hoffset, ← Except.ok.inj h, UInt16.toNat_ofNat_of_lt' hfits]
    · rw [if_neg hfits] at h
      cases h
  · intro h
    have hfits : w.toNat < wordBound := w.toNat_lt
    refine ⟨w.toNat, h, ?_⟩
    rw [if_pos hfits, UInt16.ofNat_toNat]
    rfl

/-! ## Operands -/

/-- The token writes the argument word `w`, in a text whose labels stand for `offsets` and whose program
has `length` words: a register as `r` and its number, an immediate as a number, and a target as `l` and
the number of its slot, as a label that does not look like that, or as `end`. -/
inductive IsOperand (offsets : List (Token × Nat)) (length : Nat) :
    OperandKind → Word → Token → Prop where
  | register {w : Word} {number : List Char} (h : Numeral.IsNumeral w.toNat number) :
      IsOperand offsets length .register w ('r' :: number)
  | immediate {w : Word} {number : List Char} (h : Numeral.IsNumeral w.toNat number) :
      IsOperand offsets length .immediate w number
  | slot {w : Word} {slot : Nat} {number : List Char} (h : Numeral.IsNumeral slot number)
      (hw : w.toNat = slotWidth * slot) : IsOperand offsets length .target w ('l' :: number)
  | label {w : Word} {name : Token} (h : (name, w.toNat) ∈ offsets)
      (hname : ∀ slot, ¬ IsSlotNumber slot name) : IsOperand offsets length .target w name
  | atEnd {w : Word} (hw : w.toNat = length) (h : ∀ offset, (endLabel, offset) ∉ offsets) :
      IsOperand offsets length .target w endLabel

variable {offsets : List (Token × Nat)} {length : Nat}

/-- The number of a slot whose offset is a word can be read. -/
theorem lt_of_toNat_eq_mul {w : Word} {slot : Nat} (h : w.toNat = slotWidth * slot) :
    slot < 2 ^ 64 := by
  have hsmall := w.toNat_lt
  simp only [slotWidth] at h
  omega

theorem isOperand_register_iff {w : Word} {t : Token} : IsOperand offsets length .register w t ↔
    t.head? = some 'r' ∧ Numeral.IsNumeral w.toNat t.tail := by
  constructor
  · rintro ⟨h⟩
    exact ⟨rfl, h⟩
  · rintro ⟨hhead, h⟩
    obtain ⟨number, rfl⟩ := List.head?_eq_some_iff.mp hhead
    exact .register h

theorem isOperand_immediate_iff {w : Word} {t : Token} :
    IsOperand offsets length .immediate w t ↔ Numeral.IsNumeral w.toNat t := by
  constructor
  · rintro ⟨⟩
    assumption
  · exact .immediate

theorem isOperand_target_iff {w : Word} {t : Token} : IsOperand offsets length .target w t ↔
    ((slotNumber? t).any fun slot => w.toNat = slotWidth * slot) ∨
      slotNumber? t = none ∧ (t, w.toNat) ∈ offsets ∨
        t = endLabel ∧ w.toNat = length ∧ endLabel ∉ offsets.map Prod.fst := by
  constructor
  · intro h
    cases h with
    | @slot _ slot number h hw =>
        have hslot : slotNumber? ('l' :: number) = some slot :=
          slotNumber?_eq_some_iff.mpr ⟨number, rfl, h, lt_of_toNat_eq_mul hw⟩
        exact .inl (by rw [hslot]; simpa using hw)
    | label h hname =>
        refine .inr (.inl ⟨?_, h⟩)
        rw [Option.eq_none_iff_forall_ne_some]
        exact fun slot hslot => hname slot (slotNumber?_eq_some_iff.mp hslot)
    | atEnd hw h =>
        refine .inr (.inr ⟨rfl, hw, fun hmem => ?_⟩)
        obtain ⟨⟨_, offset⟩, hmem, rfl⟩ := List.mem_map.mp hmem
        exact h offset hmem
  · rintro (h | ⟨hnone, h⟩ | ⟨rfl, hw, h⟩)
    · obtain ⟨slot, hslot, hw⟩ := (Option.any_eq_true _ _).mp h
      obtain ⟨number, rfl, hnumeral, -⟩ := slotNumber?_eq_some_iff.mp hslot
      exact .slot hnumeral (of_decide_eq_true hw)
    · refine .label h fun slot hslot => ?_
      rw [slotNumber?_eq_some_iff.mpr hslot] at hnone
      cases hnone
    · exact .atEnd hw fun offset hmem => h (List.mem_map.mpr ⟨_, hmem, rfl⟩)

instance (kind : OperandKind) (w : Word) (t : Token) :
    Decidable (IsOperand offsets length kind w t) :=
  match kind with
  | .register => decidable_of_iff _ isOperand_register_iff.symm
  | .immediate => decidable_of_iff _ isOperand_immediate_iff.symm
  | .target => decidable_of_iff _ isOperand_target_iff.symm

/-- The command writes the slot. -/
def IsCommand (offsets : List (Token × Nat)) (length : Nat) (s : Slot) (c : Command) : Prop :=
  ∃ op : Opcode, s.opcode = op.word ∧ c.mnemonic.map Char.toLower = op.mnemonic.toList ∧
    List.Forall₂ (fun x t => IsOperand offsets length x.1 x.2 t) (op.layout.zip s.args) c.operands

instance (s : Slot) (c : Command) : Decidable (IsCommand offsets length s c) :=
  decidable_of_iff ((Opcode.ofWord? s.opcode).any fun op =>
    c.mnemonic.map Char.toLower = op.mnemonic.toList ∧
      List.Forall₂ (fun x t => IsOperand offsets length x.1 x.2 t) (op.layout.zip s.args) c.operands)
    (by simp [IsCommand, Option.any_eq_true, Opcode.ofWord?_eq_some_iff])

theorem read?_toNat {w : Word} {number : List Char} (h : Numeral.IsNumeral w.toNat number) :
    Numeral.read? wordBound number = some w.toNat :=
  Numeral.read?_eq_some_iff.mpr ⟨h, w.toNat_lt⟩

/-- What writes an argument word is read as that word. -/
theorem parseWord_of_isOperand (hlabels : Resolves labels offsets length) {kind : OperandKind}
    {w : Word} {t : Token} (h : IsOperand offsets length kind w t) :
    parseWord labels t kind = .ok w := by
  cases h with
  | register h =>
      simp only [parseWord, parseRegister, read?_toNat h, UInt16.ofNat_toNat]
  | immediate h =>
      simp only [parseWord, parseImmediate, read?_toNat h, UInt16.ofNat_toNat]
  | slot h hw =>
      exact parseTarget_eq_ok_iff.mpr (targetOffset_eq_ok_iff.mpr
        (.inl ⟨_, ⟨_, rfl, h, lt_of_toNat_eq_mul hw⟩, hw⟩))
  | label h hname =>
      exact parseTarget_eq_ok_iff.mpr (targetOffset_eq_ok_iff.mpr
        (.inr ⟨hname, hlabels.label _ _ h⟩))
  | atEnd hw h =>
      refine parseTarget_eq_ok_iff.mpr (targetOffset_eq_ok_iff.mpr (.inr ⟨?_, ?_⟩))
      · rintro slot ⟨number, heq, -⟩
        cases heq
      · rw [hlabels.atEnd h, hw]

theorem parseOperand_eq_ok_iff {pos : Nat} {kind : OperandKind} {t : Token} {w : Word} :
    parseOperand labels pos kind t = .ok w ↔
      parseWord labels t kind = .ok w ∧ kind.check pos w = .ok () := by
  simp only [parseOperand, bind_eq_ok_iff]
  constructor
  · rintro ⟨v, hv, h⟩
    cases hcheck : kind.check pos v with
    | error e =>
        rw [hcheck] at h
        cases h
    | ok u =>
        rw [hcheck] at h
        obtain rfl := Except.ok.inj h
        exact ⟨hv, hcheck⟩
  · rintro ⟨hw, hcheck⟩
    refine ⟨w, hw, ?_⟩
    rw [hcheck]
    rfl

/-- Operands are read in order, one for each kind. -/
theorem parseOperands_eq_ok_iff {pos : Nat} {kinds : List OperandKind} {ts : List Token}
    {ws : List Word} :
    parseOperands labels pos kinds ts = .ok ws ↔
      List.Forall₂ (fun x w => parseOperand labels pos x.1 x.2 = .ok w) (kinds.zip ts) ws := by
  induction kinds generalizing ts ws with
  | nil =>
      rw [List.zip_nil_left, List.forall₂_nil_left_iff]
      exact ⟨fun h => (Except.ok.inj h).symm, fun h => h ▸ rfl⟩
  | cons kind kinds ih =>
      cases ts with
      | nil =>
          rw [List.zip_nil_right, List.forall₂_nil_left_iff]
          exact ⟨fun h => (Except.ok.inj h).symm, fun h => h ▸ rfl⟩
      | cons t ts =>
          simp only [parseOperands, bind_eq_ok_iff, List.zip_cons_cons,
            List.forall₂_cons_left_iff, ih]
          constructor
          · rintro ⟨w, hw, ws, hws, h⟩
            exact ⟨w, ws, hw, hws, (Except.ok.inj h).symm⟩
          · rintro ⟨w, ws, hw, hws, rfl⟩
            exact ⟨w, hw, ws, hws, rfl⟩

/-- What writes argument words that pass the check is read as those words. -/
theorem parseOperands_of_isOperand (hlabels : Resolves labels offsets length) {pos : Nat}
    {kinds : List OperandKind} {ws : List Word} {ts : List Token}
    (h : List.Forall₂ (fun x t => IsOperand offsets length x.1 x.2 t) (kinds.zip ws) ts)
    (hlength : kinds.length ≤ ws.length)
    (hcheck : ∀ x ∈ kinds.zip ws, x.1.check pos x.2 = .ok ()) :
    parseOperands labels pos kinds ts = .ok (ws.take kinds.length) := by
  rw [parseOperands_eq_ok_iff]
  induction kinds generalizing ws ts with
  | nil => exact .nil
  | cons kind kinds ih =>
      obtain ⟨w, ws, rfl⟩ :=
        List.exists_cons_of_length_pos (Nat.lt_of_lt_of_le (Nat.succ_pos _) hlength)
      rw [List.zip_cons_cons, List.forall₂_cons_left_iff] at h
      obtain ⟨t, ts, ht, hts, rfl⟩ := h
      obtain ⟨hw, hws⟩ := List.forall_mem_cons.mp hcheck
      exact .cons (parseOperand_eq_ok_iff.mpr ⟨parseWord_of_isOperand hlabels ht, hw⟩)
        (ih hts (Nat.le_of_succ_le_succ hlength) hws)

/-! ## Commands -/

theorem parseCommand_eq_ok_iff {pos : Nat} {c : Command} {s : Slot} :
    parseCommand labels pos c = .ok s ↔ ∃ op ws, Opcode.ofMnemonic? c.mnemonic = some op ∧
      c.operands.length = op.layout.length ∧
        parseOperands labels pos op.layout c.operands = .ok ws ∧ Slot.ofArgs op ws = s := by
  unfold parseCommand
  cases Opcode.ofMnemonic? c.mnemonic with
  | none => simp
  | some op =>
      simp only [Option.some.injEq]
      by_cases hlength : c.operands.length = op.layout.length
      · rw [if_pos hlength, bind_eq_ok_iff]
        constructor
        · rintro ⟨ws, hws, h⟩
          exact ⟨op, ws, rfl, hlength, hws, Except.ok.inj h⟩
        · rintro ⟨_, ws, rfl, -, hws, rfl⟩
          exact ⟨ws, hws, rfl⟩
      · rw [if_neg hlength]
        constructor
        · intro h
          cases h
        · rintro ⟨_, ws, rfl, h, -⟩
          exact absurd h hlength

/-- What writes a slot that passes the check is read as the slot, cleared. -/
theorem parseCommand_of_isCommand (hlabels : Resolves labels offsets length) {pos : Nat} {s : Slot}
    {c : Command} {op : Opcode} (h : IsCommand offsets length s c) (hcheck : s.check pos = .ok op) :
    parseCommand labels pos c = .ok (s.cleared op) := by
  obtain ⟨found, hfound, hmnemonic, hoperands⟩ := h
  obtain ⟨hop, hargs⟩ := Slot.check_eq_ok_iff.mp hcheck
  rw [← Opcode.ofWord?_eq_some_iff] at hfound hop
  obtain rfl := Option.some.inj (hfound.symm.trans hop)
  have hcount : found.layout.length ≤ s.args.length := found.length_layout_le
  have hlength := hoperands.length_eq
  rw [List.length_zip, Nat.min_eq_left hcount] at hlength
  exact parseCommand_eq_ok_iff.mpr ⟨found, _, Opcode.ofMnemonic?_eq_some_iff.mpr hmnemonic,
    hlength.symm, parseOperands_of_isOperand hlabels hoperands hcount hargs, rfl⟩

/-! ## Texts -/

/-- The instructions of a text are read one by one, each for its place. -/
theorem parseSlots_eq_ok_iff {cs : List (Nat × Command)} {slots : List Slot} :
    parseSlots labels cs = .ok slots ↔ cs.length = slots.length ∧
      ∀ i (h : i < cs.length) (h' : i < slots.length),
        parseCommand labels (slotWidth * i) cs[i].2 = .ok slots[i] := by
  have hlength : cs.zipIdx.length = cs.length := List.length_zipIdx
  unfold parseSlots
  rw [mapM_eq_ok_iff, List.forall₂_iff_get]
  simp only [List.get_eq_getElem, List.getElem_zipIdx, Nat.zero_add]
  constructor
  · rintro ⟨hcount, h⟩
    refine ⟨hlength.symm.trans hcount, fun i hi hi' => ?_⟩
    have hread := h i (hlength.symm ▸ hi) hi'
    cases hs : parseCommand labels (slotWidth * i) cs[i].2 with
    | error e =>
        rw [hs] at hread
        cases hread
    | ok s =>
        rw [hs] at hread
        rw [Except.ok.inj hread]
  · rintro ⟨hcount, h⟩
    refine ⟨hlength.trans hcount, fun i hi hi' => ?_⟩
    rw [h i (hlength ▸ hi) hi']

/-- A text is assembled by making its label table, reading its instructions and taking their words. -/
theorem assemble_eq_ok_iff {source : String} {p : Program} :
    assemble source = .ok p ↔ ∃ labels slots,
      labelTable (statements source.toList) = .ok labels ∧
        parseSlots labels (commands (statements source.toList)) = .ok slots ∧
          Program.ofWords (slots.flatMap Slot.words).toArray = .ok p := by
  simp only [assemble, bind_eq_ok_iff]
  refine exists_congr fun labels => ?_
  constructor
  · rintro ⟨hlabels, slots, hslots, h⟩
    split at h
    · rename_i q hwords
      obtain rfl := Except.ok.inj h
      exact ⟨slots, hlabels, hslots, hwords⟩
    · cases h
  · rintro ⟨slots, hlabels, hslots, hwords⟩
    refine ⟨hlabels, slots, hslots, ?_⟩
    rw [hwords]
    rfl

end Assembly

end BytecodeSearch
