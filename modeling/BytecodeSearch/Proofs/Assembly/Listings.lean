import BytecodeSearch.Assembly.Listing
import BytecodeSearch.Proofs.Assembly.Renderings

/-!
# Listings are assembly text

A listing has a line for every slot of a program, labelled with the number of the slot. Its labels are
distinct because numbers have distinct digits, and every line is one of the ways to write its slot. So
a listing renders the words of the program, with zeros in place of those that no instruction uses
(`renders_listing`), and it is assembled into them (`assemble_disassemble`).
-/

set_option autoImplicit false

namespace BytecodeSearch.Assembly

/-! ## Tokens of a listing -/

theorem not_isSeparator_of_isDigit {c : Char} (h : c.isDigit = true) :
    isSeparator c = false ∧ c ≠ '#' := by
  have hother : ∀ d : Char, d.isDigit = false → c ≠ d := by
    rintro d hd rfl
    rw [h] at hd
    cases hd
  rw [isSeparator, Text.isBlank_of_isDigit h, Bool.or_false, beq_eq_false_iff_ne]
  exact ⟨hother ',' (by decide), hother '#' (by decide)⟩

theorem isToken_toDigits (n : Nat) : IsToken (Nat.toDigits 10 n) :=
  ⟨Nat.toDigits_ne_nil, fun _ hc => not_isSeparator_of_isDigit
    (Nat.isDigit_of_mem_toDigits (by decide) (by decide) hc)⟩

theorem isToken_mnemonic (op : Opcode) : IsToken op.mnemonic.toList := by
  cases op <;> decide

theorem map_toLower_mnemonic (op : Opcode) :
    op.mnemonic.toList.map Char.toLower = op.mnemonic.toList := by
  cases op <;> decide

theorem isToken_render (kind : OperandKind) (w : Word) : IsToken (kind.render w) := by
  cases kind with
  | register =>
      have hletter : IsToken ['r'] := by decide
      exact hletter.append (isToken_toDigits w.toNat)
  | immediate => exact isToken_toDigits w.toNat
  | target =>
      have hletter : IsToken ['l'] := by decide
      exact hletter.append (isToken_toDigits (w.toNat / slotWidth))

theorem operandTexts_eq_map (op : Opcode) (s : Slot) :
    operandTexts op s = (op.layout.zip s.args).map fun x => x.1.render x.2 :=
  (List.map_zip_eq_zipWith (f := fun x : OperandKind × Word => x.1.render x.2)).symm

theorem isToken_of_mem_operandTexts {op : Opcode} {s : Slot} {t : Token}
    (h : t ∈ operandTexts op s) : IsToken t := by
  rw [operandTexts_eq_map] at h
  obtain ⟨x, -, rfl⟩ := List.mem_map.mp h
  exact isToken_render x.1 x.2

/-! ## Lines of a listing -/

/-- The line of slot number `i`, without its line feed. -/
def lineText (i : Nat) (op : Opcode) (s : Slot) : List Char :=
  Nat.toDigits 10 i ++ ':' :: ' ' :: op.mnemonic.toList ++ joinOperands (operandTexts op s)

/-- The tokens are laid out behind another token, which ends before them. -/
def LaidOutBehind (ts : List Token) (rest : List Char) : Prop := EndsToken rest ∧ LaidOut ts rest

theorem laidOutBehind_nil : LaidOutBehind [] [] :=
  ⟨IsComment.endsToken (.inl rfl), .blank isGap_nil (.inl rfl)⟩

theorem LaidOutBehind.token {c : Char} {gap rest : List Char} {t : Token} {ts : List Token}
    (hgap : IsGap (c :: gap)) (ht : IsToken t) (h : LaidOutBehind ts rest) :
    LaidOutBehind (t :: ts) (c :: gap ++ t ++ rest) :=
  ⟨endsToken_cons (.inl (hgap c List.mem_cons_self)) _, .token hgap ht h.1 h.2⟩

/-- Operands are laid out behind a mnemonic. -/
theorem laidOutBehind_joinOperands {ts : List Token} (h : ∀ t ∈ ts, IsToken t) :
    LaidOutBehind ts (joinOperands ts) := by
  have hblank : IsGap [' '] := by decide
  have hcomma : IsGap [',', ' '] := by decide
  have hrest : ∀ {ts : List Token}, (∀ t ∈ ts, IsToken t) →
      LaidOutBehind ts (ts.flatMap fun t => ',' :: ' ' :: t) := by
    intro ts h
    induction ts with
    | nil => exact laidOutBehind_nil
    | cons t ts ih =>
        obtain ⟨ht, hts⟩ := List.forall_mem_cons.mp h
        exact LaidOutBehind.token hcomma ht (ih hts)
  cases ts with
  | nil => exact laidOutBehind_nil
  | cons t ts =>
      obtain ⟨ht, hts⟩ := List.forall_mem_cons.mp h
      exact LaidOutBehind.token hblank ht (hrest hts)

/-- On the line of a slot stand its number as a label, its mnemonic and its operands. -/
theorem laidOut_lineText (i : Nat) (op : Opcode) (s : Slot) :
    LaidOut (lineTokens (some (Nat.toDigits 10 i)) (some ⟨op.mnemonic.toList, operandTexts op s⟩))
      (lineText i op s) := by
  have hblank : IsGap [' '] := by decide
  have hlabel : IsToken (Nat.toDigits 10 i ++ [':']) := (isToken_toDigits i).append (by decide)
  have hoperands : LaidOutBehind (operandTexts op s) (joinOperands (operandTexts op s)) :=
    laidOutBehind_joinOperands fun _ => isToken_of_mem_operandTexts
  obtain ⟨hend, hcommand⟩ := LaidOutBehind.token hblank (isToken_mnemonic op) hoperands
  have htext : lineText i op s = [] ++ (Nat.toDigits 10 i ++ [':']) ++
      ([' '] ++ op.mnemonic.toList ++ joinOperands (operandTexts op s)) := by
    simp only [lineText, List.nil_append, List.append_assoc, List.cons_append]
  rw [htext]
  exact .token isGap_nil hlabel hend hcommand

theorem newline_notMem_joinOperands {ts : List Token} (h : ∀ t ∈ ts, IsToken t) :
    '\n' ∉ joinOperands ts := by
  cases ts with
  | nil => exact List.not_mem_nil
  | cons t ts =>
      obtain ⟨ht, hts⟩ := List.forall_mem_cons.mp h
      simp only [joinOperands, List.mem_append, List.mem_cons, List.mem_flatMap, not_or, not_exists,
        not_and]
      exact ⟨⟨by decide, ht.newline_notMem⟩, fun u hu =>
        ⟨by decide, by decide, (hts u hu).newline_notMem⟩⟩

theorem newline_notMem_lineText (i : Nat) (op : Opcode) (s : Slot) : '\n' ∉ lineText i op s := by
  simp only [lineText, List.mem_append, List.mem_cons, not_or]
  exact ⟨⟨(isToken_toDigits i).newline_notMem, by decide, by decide,
    (isToken_mnemonic op).newline_notMem⟩,
      newline_notMem_joinOperands fun _ => isToken_of_mem_operandTexts⟩

/-! ## Slots of a listing -/

variable {offsets : List (Token × Nat)} {length : Nat}

/-- A listing writes an argument word in one of the ways it can be written. -/
theorem isOperand_render {pos : Nat} {kind : OperandKind} {w : Word}
    (h : kind.check pos w = .ok ()) : IsOperand offsets length kind w (kind.render w) := by
  cases kind with
  | register => exact .register (Numeral.isNumeral_toDigits w.toNat)
  | immediate => exact .immediate (Numeral.isNumeral_toDigits w.toNat)
  | target =>
      have haligned : w.toNat % slotWidth = 0 := by
        by_contra hmod
        rw [OperandKind.check, Target.read, dif_neg hmod] at h
        cases h
      exact .slot (Numeral.isNumeral_toDigits (w.toNat / slotWidth))
        (Nat.mul_div_cancel' (Nat.dvd_of_mod_eq_zero haligned)).symm

/-- A listing writes every slot that passes the check, cleared. -/
theorem isCommand_operandTexts {pos : Nat} {s : Slot} {op : Opcode} (h : s.check pos = .ok op) :
    IsCommand offsets length (s.cleared op) ⟨op.mnemonic.toList, operandTexts op s⟩ := by
  refine ⟨op, rfl, map_toLower_mnemonic op, ?_⟩
  rw [Slot.zip_args_cleared, operandTexts_eq_map, List.forall₂_map_right_iff, List.forall₂_same]
  exact fun x hx => isOperand_render ((Slot.check_eq_ok_iff.mp h).2 x hx)

/-! ## Listings -/

/-- What the line of slot number `i` says: its number as a label, and the slot, cleared. -/
def listingRow (code : Array Word) (length i : Nat) : Row :=
  ⟨some (Nat.toDigits 10 i), some (Slot.read (Code.cleared code length) (slotWidth * i))⟩

/-- What a listing of `n` slots says, with nothing behind its last line feed. -/
def listingRows (code : Array Word) (length n : Nat) : List Row :=
  (List.range n).map (listingRow code length) ++ [⟨none, none⟩]

section

variable {code : Array Word} {ops : List Opcode}

theorem slots_listingRows (n : Nat) : Row.slots (listingRows code length n) =
    (List.range n).map fun i => Slot.read (Code.cleared code length) (slotWidth * i) := by
  rw [Row.slots, listingRows, List.filterMap_append, List.filterMap_map]
  exact (List.append_nil _).trans (congrFun List.filterMap_eq_map _)

theorem labels_listingRows (n : Nat) : (listingRows code length n).filterMap Row.label =
    (List.range n).map (Nat.toDigits 10) := by
  rw [listingRows, List.filterMap_append, List.filterMap_map]
  exact (List.append_nil _).trans (congrFun List.filterMap_eq_map _)

/-- The instructions that a check finds are those of the slots, one for each of them. -/
theorem check_of_opcodes (h : Code.opcodes code length = .ok ops) :
    Code.IsLength length code.size ∧ slotWidth * ops.length = length ∧
      ∀ i op, ops[i]? = some op →
        (Slot.read code (slotWidth * i)).check (slotWidth * i) = .ok op := by
  simp only [Code.opcodes, bind_eq_ok_iff, Code.offsets, mapM_eq_ok_iff,
    List.forall₂_map_left_iff] at h
  obtain ⟨_, hlength, hops⟩ := h
  have hwhole := Code.checkLength_eq_ok_iff.mp hlength
  have hcount := hops.length_eq
  rw [List.length_range] at hcount
  refine ⟨hwhole, ?_, fun i op hop => ?_⟩
  · rw [← hcount]
    exact Nat.mul_div_cancel' (Nat.dvd_of_mod_eq_zero hwhole.1)
  · obtain ⟨hi, rfl⟩ := List.getElem?_eq_some_iff.mp hop
    have hrange : i < (List.range (length / slotWidth)).length := by
      rwa [List.length_range, hcount]
    simpa only [List.get_eq_getElem, List.getElem_range] using hops.get hrange hi

theorem read_cleared_of_opcodes (h : Code.opcodes code length = .ok ops) {i : Nat} {op : Opcode}
    (hop : ops[i]? = some op) : Slot.read (Code.cleared code length) (slotWidth * i) =
      (Slot.read code (slotWidth * i)).cleared op := by
  obtain ⟨hwhole, hcount, hcheck⟩ := check_of_opcodes h
  obtain ⟨hi, -⟩ := List.getElem?_eq_some_iff.mp hop
  have hlt : slotWidth * i < length := by
    rw [← hcount]
    exact Nat.mul_lt_mul_of_pos_left hi (by decide)
  exact Code.read_cleared (Nat.mul_mod_right _ i) hwhole.1 hlt
    (Slot.exists_decodeArgs_of_check (hcheck i op hop)).1

/-- A listing of valid code renders its words, with zeros in place of those that are not used. -/
theorem renders_listing (h : Code.opcodes code length = .ok ops) :
    Renders (Code.cleared code length) (listingRows code length ops.length) (String.ofList
      (ops.zipIdx.flatMap fun x => listingLine x.2 x.1 (Slot.read code (slotWidth * x.2)))) := by
  obtain ⟨-, hcount, hcheck⟩ := check_of_opcodes h
  have hlines : (ops.zipIdx.flatMap fun x =>
      listingLine x.2 x.1 (Slot.read code (slotWidth * x.2))) =
        (ops.zipIdx.map fun x => lineText x.2 x.1 (Slot.read code (slotWidth * x.2))).flatMap
          (· ++ ['\n']) := by
    rw [List.flatMap_map]
    rfl
  refine ⟨?_, ?_, ?_⟩
  · rw [slots_listingRows]
    exact eq_flatMap_read ((Code.size_cleared code length).trans hcount.symm)
  · rw [labels_listingRows]
    exact List.nodup_range.map Numeral.toDigits_injective
  · rw [String.toList_ofList, hlines, splitOn_lines, listingRows]
    · refine List.rel_append ?_ (.cons ⟨by simp, none, .none, by decide⟩ .nil)
      -- the numbers of the slots are the indices of the instructions
      rw [List.range_eq_range', ← List.zipIdx_map_snd, List.map_map, List.forall₂_map_left_iff,
        List.forall₂_map_right_iff, List.forall₂_same]
      rintro ⟨op, i⟩ hmem
      have hop : ops[i]? = some op := List.mem_zipIdx_iff_getElem?.mp hmem
      refine ⟨?_, some ⟨op.mnemonic.toList, _⟩, .some ?_, laidOut_lineText i op _⟩
      · rintro _ ⟨⟩
        exact Nat.toDigits_ne_nil
      · rw [read_cleared_of_opcodes h hop]
        exact isCommand_operandTexts (hcheck i op hop)
    · intro line hline
      obtain ⟨x, -, rfl⟩ := List.mem_map.mp hline
      exact newline_notMem_lineText _ _ _

/-- **Disassembly reassembles.** The listing of valid code is assembled into a program, and the words of
the program are those of the code, with zeros in place of the argument words that no instruction
uses. -/
theorem assemble_disassemble (h : Code.validate code length = .ok ()) :
    ∃ text, disassemble code length = .ok text ∧
      ∃ p, assemble text = .ok p ∧ p.words = Code.cleared code length := by
  simp only [Code.validate, bind_eq_ok_iff] at h
  obtain ⟨ops, hops, -⟩ := h
  obtain ⟨-, -, hcheck⟩ := check_of_opcodes hops
  refine ⟨_, ?_, (renders_listing hops).exists_assemble ?_⟩
  · simp only [disassemble, listing, hops]
    rfl
  · intro i hi
    simp only [slots_listingRows, List.length_map, List.length_range] at hi
    have hop : ops[i]? = some ops[i] := List.getElem?_eq_getElem hi
    simp only [slots_listingRows, List.getElem_map, List.getElem_range,
      read_cleared_of_opcodes hops hop]
    exact ⟨ops[i], Slot.check_cleared (hcheck i _ hop), Slot.cleared_cleared _ _⟩

/-- Words that are not used, a jump far behind the end, and a slot that is no longer in the program. -/
theorem assemble_disassemble_unused :
    Code.validate #[0, 7, 1, 9, 8, 40, 5, 6, 14, 1, 2, 3, 99, 0, 0, 0] 12 = .ok () ∧
      ∃ text, disassemble #[0, 7, 1, 9, 8, 40, 5, 6, 14, 1, 2, 3, 99, 0, 0, 0] 12 = .ok text ∧
        ∃ p, assemble text = .ok p ∧ p.words = #[0, 7, 1, 0, 8, 40, 0, 0, 14, 1, 0, 0] := by
  have hvalid : Code.validate #[0, 7, 1, 9, 8, 40, 5, 6, 14, 1, 2, 3, 99, 0, 0, 0] 12 = .ok () := by
    decide
  have hcleared : Code.cleared #[0, 7, 1, 9, 8, 40, 5, 6, 14, 1, 2, 3, 99, 0, 0, 0] 12 =
      #[0, 7, 1, 0, 8, 40, 0, 0, 14, 1, 0, 0] := by
    decide
  refine ⟨hvalid, ?_⟩
  rw [← hcleared]
  exact assemble_disassemble hvalid

end

end BytecodeSearch.Assembly
