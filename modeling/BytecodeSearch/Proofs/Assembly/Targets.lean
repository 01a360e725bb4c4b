import BytecodeSearch.Proofs.Assembly.Renderings

/-!
# Where jumps lead

Every operand of an assembled text is the word that its token was read as (`parseOperand_of_assemble`).
For a jump target this is the offset of the label that the token names, which is four words for every
instruction before the definition of the label. The exception are names that are `l` and the number of
a slot: such a token is always the slot, also if the text defines a label of this name
(`target_of_label`, `not_always_label`).
-/

set_option autoImplicit false

namespace BytecodeSearch.Assembly

/-- A label of this name is defined right behind the statements `before`. -/
def DefinesBehind (sts before : List Statement) (name : Token) : Prop :=
  ∃ s after, sts = before ++ s :: after ∧ s.label = some name

/-- An instruction stands right behind the statements `front`, and operand number `i` of it is of this
kind and written as this token. -/
def OperandBehind (sts front : List Statement) (i : Nat) (kind : OperandKind) (t : Token) : Prop :=
  ∃ s back c op, sts = front ++ s :: back ∧ s.command = some c ∧
    Opcode.ofMnemonic? c.mnemonic = some op ∧ op.layout[i]? = some kind ∧ c.operands[i]? = some t

/-- The place of operand number `i` of the instruction behind the statements `front`. -/
def operandOffset (front : List Statement) (i : Nat) : Nat :=
  slotWidth * (commands front).length + (1 + i)

theorem commands_append_cons {front back : List Statement} {s : Statement} {c : Command}
    (h : s.command = some c) :
    commands (front ++ s :: back) = commands front ++ (s.line, c) :: commands back := by
  simp only [commands, List.filterMap_append, List.filterMap_cons, h, Option.map_some]

/-- An argument word that the instruction uses stands behind its opcode word. -/
theorem getD_words_ofArgs {op : Opcode} {ws : List Word} {i : Nat} {w : Word} (hi : i < 3)
    (h : ws[i]? = some w) : (Slot.ofArgs op ws).words.getD (1 + i) 0 = w := by
  obtain rfl | rfl | rfl : i = 0 ∨ i = 1 ∨ i = 2 := by omega
  all_goals
    show (ws[_]?).getD 0 = w
    rw [h]
    rfl

/-- Every operand of a text is read as the word that stands in its place. -/
theorem parseOperand_of_assemble {source : String} {p : Program} (h : assemble source = .ok p) :
    p.words.size = slotWidth * (commands (statements source.toList)).length ∧
      ∃ labels, labelTable (statements source.toList) = .ok labels ∧
        ∀ front i kind t, OperandBehind (statements source.toList) front i kind t →
          parseOperand labels (slotWidth * (commands front).length) kind t =
            .ok (p.words.getD (operandOffset front i) 0) := by
  obtain ⟨labels, slots, hlabels, hslots, hp⟩ := assemble_eq_ok_iff.mp h
  obtain ⟨hcount, hread⟩ := parseSlots_eq_ok_iff.mp hslots
  have hwords := Program.words_of_ofWords hp
  refine ⟨?_, labels, hlabels, ?_⟩
  · rw [hwords, List.size_toArray, length_flatMap_words, hcount]
  · rintro front i kind t ⟨s, back, c, op, hsts, hc, hop, hkind, ht⟩
    have hfound : (commands (statements source.toList))[(commands front).length]? =
        some (s.line, c) := by
      rw [hsts, commands_append_cons hc, List.getElem?_append_right (Nat.le_refl _), Nat.sub_self]
      rfl
    obtain ⟨hk, hcommand⟩ := List.getElem?_eq_some_iff.mp hfound
    have hk' : (commands front).length < slots.length := hcount ▸ hk
    have hparsed := hread _ hk hk'
    rw [hcommand] at hparsed
    obtain ⟨op', ws, hop', -, hws, hslot⟩ := parseCommand_eq_ok_iff.mp hparsed
    obtain rfl := Option.some.inj (hop'.symm.trans hop)
    have hoperands := parseOperands_eq_ok_iff.mp hws
    have hpair : (op'.layout.zip c.operands)[i]? = some (kind, t) :=
      List.getElem?_zip_eq_some.mpr ⟨hkind, ht⟩
    obtain ⟨hi, hoperand⟩ := List.getElem?_eq_some_iff.mp hpair
    have hi' : i < ws.length := hoperands.length_eq ▸ hi
    have hword : p.words.getD (operandOffset front i) 0 = ws[i] := by
      have hlayout : i < op'.layout.length := (List.getElem?_eq_some_iff.mp hkind).1
      have hthree := op'.length_layout_le
      rw [hwords, getD_toArray, operandOffset, getD_flatMap_words _ _ (by simp only [slotWidth]; omega),
        List.getD_eq_getElem _ _ hk', ← hslot]
      exact getD_words_ofArgs (by omega) (List.getElem?_eq_getElem hi')
    rw [hword]
    simpa only [List.get_eq_getElem, hoperand] using hoperands.get hi hi'

/-- **Where a jump to a label leads.** In a text that is assembled, a jump target that is written as the
name of a label is four times the number of instructions before the definition of the label; so it is
the offset of the slot behind the definition, or of the end of the program. If the name is `l` and the
number of a slot, the target is this slot. -/
theorem target_of_label {source : String} {p : Program} (h : assemble source = .ok p)
    {before front : List Statement} {name : Token} {i : Nat}
    (hlabel : DefinesBehind (statements source.toList) before name)
    (htarget : OperandBehind (statements source.toList) front i .target name) :
    p.words.size = slotWidth * (commands (statements source.toList)).length ∧
      ((∀ slot, ¬ IsSlotNumber slot name) →
        (p.words.getD (operandOffset front i) 0).toNat = slotWidth * (commands before).length) ∧
          ∀ slot, IsSlotNumber slot name →
            (p.words.getD (operandOffset front i) 0).toNat = slotWidth * slot := by
  obtain ⟨hsize, labels, hlabels, hoperands⟩ := parseOperand_of_assemble h
  have hread := (parseOperand_eq_ok_iff.mp (hoperands front i .target name htarget)).1
  have hoffset := targetOffset_eq_ok_iff.mp (parseTarget_eq_ok_iff.mp hread)
  obtain ⟨s, after, hsts, hs⟩ := hlabel
  have hmem : (name, slotWidth * (commands before).length) ∈
      Statement.offsets 0 (statements source.toList) := by
    refine mem_labelOffsets_iff.mpr ⟨before, s, after, hsts, hs, ?_⟩
    rw [countP_isSome_command, Nat.zero_add]
  have hfound := (resolves_labelTable hlabels).label _ _ hmem
  refine ⟨hsize, fun hname => ?_, fun slot hslot => ?_⟩
  · rcases hoffset with ⟨slot, hslot, -⟩ | ⟨-, hword⟩
    · exact absurd hslot (hname slot)
    · exact Option.some.inj (hword.symm.trans hfound)
  · rcases hoffset with ⟨slot', hslot', hword⟩ | ⟨hname, -⟩
    · rw [← slotNumber?_eq_some_iff] at hslot hslot'
      rw [hword, Option.some.inj (hslot'.symm.trans hslot)]
    · exact absurd hslot (hname slot)

/-- A text that jumps to two labels, one of which has the name of a slot. -/
def crossingText : String := "jumpz r0 out\njump l5\nl5: echo r0\nout: echo r1"

/-- What the lines of the text say. -/
def crossing : List Statement := [
  ⟨1, none, some ⟨"jumpz".toList, ["r0".toList, "out".toList]⟩⟩,
  ⟨2, none, some ⟨"jump".toList, ["l5".toList]⟩⟩,
  ⟨3, some "l5".toList, some ⟨"echo".toList, ["r0".toList]⟩⟩,
  ⟨4, some "out".toList, some ⟨"echo".toList, ["r1".toList]⟩⟩]

theorem statements_crossingText : statements crossingText.toList = crossing := by
  decide

/-- What its instructions are assembled into. -/
def crossingSlots : List Slot := [⟨12, 0, 12, 0⟩, ⟨8, 20, 0, 0⟩, ⟨14, 0, 0, 0⟩, ⟨14, 1, 0, 0⟩]

theorem exists_assemble_crossingText : ∃ p, assemble crossingText = .ok p ∧
    p.words = (crossingSlots.flatMap Slot.words).toArray := by
  have hdistinct : ((statements crossingText.toList).filterMap Statement.label).Nodup := by
    decide
  have hcommands : List.Forall₂ (fun s x => IsCommand (Statement.offsets 0
      (statements crossingText.toList)) (slotWidth * crossingSlots.length) s x.2) crossingSlots
        (commands (statements crossingText.toList)) := by
    rw [statements_crossingText]
    decide
  refine exists_assemble_of_commands hdistinct hcommands fun i hi => ?_
  obtain rfl | rfl | rfl | rfl : i = 0 ∨ i = 1 ∨ i = 2 ∨ i = 3 := by
    simp only [crossingSlots, List.length_cons, List.length_nil] at hi
    omega
  · have hcheck : Slot.check 0 ⟨12, 0, 12, 0⟩ = .ok .jumpZero := by decide
    exact ⟨.jumpZero, hcheck, rfl⟩
  · have hcheck : Slot.check 4 ⟨8, 20, 0, 0⟩ = .ok .jump := by decide
    exact ⟨.jump, hcheck, rfl⟩
  · exact ⟨.echo, rfl, rfl⟩
  · exact ⟨.echo, rfl, rfl⟩

theorem target_out : ∃ p, assemble crossingText = .ok p ∧
    DefinesBehind (statements crossingText.toList) (crossing.take 3) "out".toList ∧
      OperandBehind (statements crossingText.toList) [] 1 .target "out".toList ∧
        (∀ slot, ¬ IsSlotNumber slot "out".toList) ∧ (p.words.getD 2 0).toNat = 12 := by
  obtain ⟨p, hp, -⟩ := exists_assemble_crossingText
  have hlabel : DefinesBehind (statements crossingText.toList) (crossing.take 3) "out".toList :=
    ⟨⟨4, some "out".toList, some ⟨"echo".toList, ["r1".toList]⟩⟩, [],
      statements_crossingText, rfl⟩
  have htarget : OperandBehind (statements crossingText.toList) [] 1 .target "out".toList :=
    ⟨⟨1, none, some ⟨"jumpz".toList, ["r0".toList, "out".toList]⟩⟩, crossing.drop 1, _, .jumpZero,
      statements_crossingText, rfl, by decide, rfl, rfl⟩
  have hname : ∀ slot, ¬ IsSlotNumber slot "out".toList := by
    rintro slot ⟨number, h, -⟩
    have hletter : 'o' = 'l' := (List.cons.inj h).1
    exact absurd hletter (by decide)
  exact ⟨p, hp, hlabel, htarget, hname, (target_of_label hp hlabel htarget).2.1 hname⟩

/-- A label whose name is that of a slot is passed over. -/
theorem not_always_label : ¬ ∀ (source : String) (p : Program) (before front : List Statement)
    (name : Token) (i : Nat), assemble source = .ok p →
      DefinesBehind (statements source.toList) before name →
        OperandBehind (statements source.toList) front i .target name →
          (p.words.getD (operandOffset front i) 0).toNat = slotWidth * (commands before).length := by
  intro halways
  obtain ⟨p, hp, hwords⟩ := exists_assemble_crossingText
  have hlabel : DefinesBehind (statements crossingText.toList) (crossing.take 2) "l5".toList :=
    ⟨⟨3, some "l5".toList, some ⟨"echo".toList, ["r0".toList]⟩⟩, crossing.drop 3,
      statements_crossingText, rfl⟩
  have htarget : OperandBehind (statements crossingText.toList) (crossing.take 1) 0 .target
      "l5".toList :=
    ⟨⟨2, none, some ⟨"jump".toList, ["l5".toList]⟩⟩, crossing.drop 2, _, .jump,
      statements_crossingText, rfl, by decide, rfl, rfl⟩
  have heq := halways crossingText p _ _ _ _ hp hlabel htarget
  rw [hwords] at heq
  revert heq
  decide

end BytecodeSearch.Assembly
