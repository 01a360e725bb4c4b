import BytecodeSearch.Proofs.Assembly.Layout
import BytecodeSearch.Proofs.Assembly.Notation

/-!
# Texts that write a program

A text writes a program line by line. What a line says is a `Row`: the label that it defines and the slot
that it holds, both of which may be missing. There are many ways to say it (`Row.IsWritten`): gaps and
comments as one likes, capital letters or small ones, and for a jump target the number of its slot or a
label. `Renders` says that a text says the rows line by line and that their slots are the words of the
program.

The statements of such a text are what its rows say (`offsets_statementsFrom`,
`commands_statementsFrom`), so it is assembled into these words (`Renders.exists_assemble`,
`assemble_of_renders`).
-/

set_option autoImplicit false

namespace BytecodeSearch.Assembly

/-- What a line of a text says. -/
structure Row where
  /-- The label it defines. -/
  label : Option Token
  /-- The slot it holds. -/
  slot : Option Slot

namespace Row

/-- The labels of rows, each with the offset of the slot that follows its definition. -/
abbrev offsets : Nat → List Row → List (Token × Nat) := labelOffsets label fun r => r.slot.isSome

/-- The slots of rows. -/
def slots (rows : List Row) : List Slot := rows.filterMap slot

end Row

/-- The tokens of a line that defines a label and holds a command, or only one of them, or none. -/
def lineTokens (label : Option Token) (command : Option Command) : List Token :=
  label.toList.map (· ++ [':']) ++ (command.map fun c => c.mnemonic :: c.operands).getD []

/-- The line says what the row says, in a text whose labels stand for `offsets` and whose program has
`length` words. -/
def Row.IsWritten (offsets : List (Token × Nat)) (length : Nat) (r : Row) (line : List Char) : Prop :=
  (∀ name ∈ r.label, name ≠ []) ∧ ∃ command : Option Command,
    Option.Rel (IsCommand offsets length) r.slot command ∧
      LaidOut (lineTokens r.label command) line

/-- The lines of the text say what the rows say, and the slots of the rows are the words `w`. -/
structure Renders (w : Array Word) (rows : List Row) (source : String) : Prop where
  /-- The words are those of the slots, in order. -/
  words : w = ((Row.slots rows).flatMap Slot.words).toArray
  /-- No label is defined twice. -/
  distinct : (rows.filterMap Row.label).Nodup
  /-- Every line is written in one of the ways to say what its row says. -/
  lines : List.Forall₂ (Row.IsWritten (Row.offsets 0 rows) w.size) rows (source.toList.splitOn '\n')

/-! ## From lines to statements -/

/-- The statement of a line that defines a label and holds a command, if it does one of them. -/
def Statement.ofParts (line : Nat) (label : Option Token) (command : Option Command) :
    Option Statement :=
  if label.isSome || command.isSome then some ⟨line, label, command⟩ else none

theorem labelName?_append_colon {name : Token} (h : name ≠ []) :
    labelName? (name ++ [':']) = some name := by
  have hlength : 1 < (name ++ [':']).length := by
    have hpos := List.length_pos_of_ne_nil h
    rw [List.length_append, List.length_singleton]
    omega
  rw [labelName?, if_pos ⟨hlength, List.getLast?_concat⟩, List.dropLast_concat]

/-- No mnemonic looks like a label that is defined. -/
theorem labelName?_mnemonic {name : Token} {op : Opcode}
    (h : name.map Char.toLower = op.mnemonic.toList) : labelName? name = none := by
  have hcolon : ':' ∉ op.mnemonic.toList := by
    cases op <;> decide
  rw [labelName?, if_neg]
  rintro ⟨-, hlast⟩
  refine hcolon ?_
  rw [← h]
  exact List.mem_map.mpr ⟨':', List.mem_of_getLast? hlast, rfl⟩

theorem ofTokens_lineTokens {line : Nat} {label : Option Token} {command : Option Command}
    (hlabel : ∀ name ∈ label, name ≠ []) (hcommand : ∀ c ∈ command, labelName? c.mnemonic = none) :
    Statement.ofTokens line (lineTokens label command) = Statement.ofParts line label command := by
  cases label with
  | none =>
      cases command with
      | none => rfl
      | some c =>
          show Statement.ofTokens line (c.mnemonic :: c.operands) = _
          simp only [Statement.ofTokens, hcommand c rfl]
          rfl
  | some name =>
      cases command with
      | none =>
          show Statement.ofTokens line [name ++ [':']] = _
          simp only [Statement.ofTokens, labelName?_append_colon (hlabel name rfl)]
          rfl
      | some c =>
          show Statement.ofTokens line ((name ++ [':']) :: c.mnemonic :: c.operands) = _
          simp only [Statement.ofTokens, labelName?_append_colon (hlabel name rfl)]
          rfl

/-- The statements of lines, the first of which has number `first`. -/
def statementsFrom (first : Nat) (lines : List (List Char)) : List Statement :=
  (lines.zipIdx first).filterMap fun l => Statement.ofTokens l.2 (tokens l.1)

theorem statementsFrom_cons (first : Nat) (line : List Char) (lines : List (List Char)) :
    statementsFrom first (line :: lines) =
      (Statement.ofTokens first (tokens line)).toList ++ statementsFrom (first + 1) lines := by
  unfold statementsFrom
  rw [List.zipIdx_cons, List.filterMap_cons]
  cases Statement.ofTokens first (tokens line) <;> rfl

theorem offsets_ofParts (start line : Nat) (label : Option Token) (command : Option Command)
    (sts : List Statement) :
    Statement.offsets start ((Statement.ofParts line label command).toList ++ sts) =
      label.toList.map (·, start) ++
        Statement.offsets (if command.isSome then start + slotWidth else start) sts := by
  cases label <;> cases command <;> rfl

theorem commands_ofParts (line : Nat) (label : Option Token) (command : Option Command)
    (sts : List Statement) :
    commands ((Statement.ofParts line label command).toList ++ sts) =
      command.toList.map (line, ·) ++ commands sts := by
  cases label <;> cases command <;> rfl

section

variable {offsets : List (Token × Nat)} {length : Nat} {rows : List Row}
  {lines : List (List Char)}

/-- A written line has the statement of its parts. -/
theorem exists_ofTokens_eq {r : Row} {line : List Char} (h : r.IsWritten offsets length line)
    (number : Nat) : ∃ command, Option.Rel (IsCommand offsets length) r.slot command ∧
      Statement.ofTokens number (tokens line) = Statement.ofParts number r.label command := by
  obtain ⟨label, slot⟩ := r
  obtain ⟨hlabel, command, hcommand, hline⟩ := h
  refine ⟨command, hcommand, ?_⟩
  rw [tokens_of_laidOut hline]
  refine ofTokens_lineTokens hlabel ?_
  rintro c rfl
  cases hcommand with
  | some hwritten =>
      obtain ⟨op, -, hmnemonic, -⟩ := hwritten
      exact labelName?_mnemonic hmnemonic

/-- The statements of written lines define the labels of the rows, at the same offsets. -/
theorem offsets_statementsFrom (h : List.Forall₂ (Row.IsWritten offsets length) rows lines)
    (first start : Nat) :
    Statement.offsets start (statementsFrom first lines) = Row.offsets start rows := by
  induction h generalizing first start with
  | nil => rfl
  | @cons r line rows lines hr _ ih =>
      obtain ⟨label, slot⟩ := r
      obtain ⟨command, hcommand, hstatement⟩ := exists_ofTokens_eq hr first
      have hholds : command.isSome = slot.isSome := by
        cases hcommand <;> rfl
      rw [statementsFrom_cons, hstatement, offsets_ofParts, ih, hholds]
      rfl

/-- The commands of written lines write the slots of the rows. -/
theorem commands_statementsFrom (h : List.Forall₂ (Row.IsWritten offsets length) rows lines)
    (first : Nat) : List.Forall₂ (fun s x => IsCommand offsets length s x.2) (Row.slots rows)
      (commands (statementsFrom first lines)) := by
  induction h generalizing first with
  | nil => exact .nil
  | @cons r line rows lines hr _ ih =>
      obtain ⟨label, slot⟩ := r
      obtain ⟨command, hcommand, hstatement⟩ := exists_ofTokens_eq hr first
      rw [statementsFrom_cons, hstatement, commands_ofParts]
      cases hcommand with
      | none => exact ih (first + 1)
      | some hwritten => exact .cons hwritten (ih (first + 1))

end

/-! ## From statements to words -/

/-- Statements that define no label twice and write slots in order assemble into the words of these
slots. -/
theorem exists_assemble_of_commands {source : String} {slots : List Slot}
    (hdistinct : ((statements source.toList).filterMap Statement.label).Nodup)
    (hcommands : List.Forall₂ (fun s x => IsCommand (Statement.offsets 0 (statements source.toList))
      (slotWidth * slots.length) s x.2) slots (commands (statements source.toList)))
    (hslots : ∀ i (h : i < slots.length), ∃ op, slots[i].check (slotWidth * i) = .ok op ∧
      slots[i].cleared op = slots[i]) :
    ∃ p, assemble source = .ok p ∧ p.words = (slots.flatMap Slot.words).toArray := by
  have hcount := hcommands.length_eq
  obtain ⟨labels, hlabels⟩ : ∃ labels, labelTable (statements source.toList) = .ok labels :=
    ⟨_, labelTable_eq_ok_iff.mpr ⟨hdistinct, rfl⟩⟩
  have hresolves := resolves_labelTable hlabels
  rw [← hcount] at hresolves
  have hparsed : parseSlots labels (commands (statements source.toList)) = .ok slots := by
    refine parseSlots_eq_ok_iff.mpr ⟨hcount.symm, fun i hi hi' => ?_⟩
    obtain ⟨op, hcheck, hcleared⟩ := hslots i hi'
    have hwritten : IsCommand _ _ slots[i] (commands (statements source.toList))[i].2 :=
      hcommands.get hi' hi
    rw [parseCommand_of_isCommand hresolves hwritten hcheck, hcleared]
  obtain ⟨p, hp⟩ := Program.exists_ofWords_eq_ok_iff.mpr (isValid_flatMap_words_iff.mpr fun i hi =>
    (hslots i hi).imp fun _ h => h.1)
  exact ⟨p, assemble_eq_ok_iff.mpr ⟨labels, slots, hlabels, hparsed, hp⟩, Program.words_of_ofWords hp⟩

/-- A text that renders words is assembled into them, if every slot of them passes the check and has
zeros where its instruction uses no word. -/
theorem Renders.exists_assemble {w : Array Word} {rows : List Row} {source : String}
    (h : Renders w rows source)
    (hslots : ∀ i (h : i < (Row.slots rows).length), ∃ op,
      (Row.slots rows)[i].check (slotWidth * i) = .ok op ∧
        (Row.slots rows)[i].cleared op = (Row.slots rows)[i]) :
    ∃ p, assemble source = .ok p ∧ p.words = w := by
  have hstatements : statements source.toList = statementsFrom 1 (source.toList.splitOn '\n') := rfl
  have hlength : w.size = slotWidth * (Row.slots rows).length := by
    rw [h.words, List.size_toArray, length_flatMap_words]
  have hoffsets := offsets_statementsFrom h.lines 1 0
  have hcommands := commands_statementsFrom h.lines 1
  have hlabels : (statements source.toList).filterMap Statement.label = rows.filterMap Row.label := by
    rw [← map_fst_labelOffsets 0 rows, ← map_fst_labelOffsets 0 (statements source.toList)]
    exact congrArg (List.map Prod.fst) hoffsets
  rw [h.words]
  refine exists_assemble_of_commands ?_ ?_ hslots
  · rw [hlabels]
    exact h.distinct
  · rw [hstatements, hoffsets, ← hlength]
    exact hcommands

/-- **Every text that writes a valid program assembles into it.** If the slots of the words `w` pass the
check, and the words that no instruction uses are zero, then every text that renders `w` is assembled
into a program, and the words of the program are `w`. -/
theorem assemble_of_renders {w : Array Word} {rows : List Row} {source : String}
    (hvalid : Code.IsValid w w.size)
    (hunused : ∀ i < w.size, ¬ Code.IsUsed w i → w.getD i 0 = 0) (h : Renders w rows source) :
    ∃ p, assemble source = .ok p ∧ p.words = w := by
  have hclear : Code.cleared w w.size = w := by
    refine ext_getD (Code.size_cleared w w.size) fun i => ?_
    by_cases hi : i < w.size
    · rw [Code.getD_cleared hi]
      by_cases hused : Code.IsUsed w i
      · rw [if_pos hused]
      · rw [if_neg hused, hunused i hi hused]
    · have hi := Nat.not_lt.mp hi
      rw [getD_eq_zero_of_size_le hi,
        getD_eq_zero_of_size_le (Nat.le_trans (Nat.le_of_eq (Code.size_cleared w w.size)) hi)]
  refine h.exists_assemble fun i hi => ?_
  have hread := read_flatMap_words hi
  rw [← h.words] at hread
  have hlt : slotWidth * i < w.size := by
    rw [h.words, List.size_toArray, length_flatMap_words]
    exact Nat.mul_lt_mul_of_pos_left hi (by decide)
  obtain ⟨op, hcheck⟩ := hvalid.slots (slotWidth * i) hlt (Nat.mul_mod_right _ _)
  obtain ⟨hop, -⟩ := Slot.exists_decodeArgs_of_check hcheck
  have hslot := Code.read_cleared (Nat.mul_mod_right _ i) hvalid.isLength.1 hlt hop
  rw [hclear] at hslot
  rw [← hread]
  exact ⟨op, hcheck, hslot.symm⟩

/-- A text with comments, gaps of all kinds, capital letters, a label that is used before its definition, a
slot number with a leading zero, and `end`. -/
def sevenText : String :=
  "# puts out 7\n  SET 7,, r1 # seven\nstart: jumpZ r0 out\n\tjumpg,r1,r0,l04#go\njump end\nout:\necho r1\n"

/-- What the lines of the text say. -/
def sevenRows : List Row := [
  ⟨none, none⟩,
  ⟨none, some ⟨0, 7, 1, 0⟩⟩,
  ⟨some "start".toList, some ⟨12, 0, 16, 0⟩⟩,
  ⟨none, some ⟨9, 1, 0, 16⟩⟩,
  ⟨none, some ⟨8, 20, 0, 0⟩⟩,
  ⟨some "out".toList, none⟩,
  ⟨none, some ⟨14, 1, 0, 0⟩⟩,
  ⟨none, none⟩]

/-- The words of the text. -/
def sevenWords : Array Word := #[0, 7, 1, 0, 12, 0, 16, 0, 9, 1, 0, 16, 8, 20, 0, 0, 14, 1, 0, 0]

theorem renders_sevenText : Renders sevenWords sevenRows sevenText := by
  have hlines : sevenText.toList.splitOn '\n' = ["# puts out 7".toList, "  SET 7,, r1 # seven".toList,
    "start: jumpZ r0 out".toList, "\tjumpg,r1,r0,l04#go".toList, "jump end".toList, "out:".toList,
    "echo r1".toList, []] := by decide
  have hoffsets : Row.offsets 0 sevenRows = [("start".toList, 4), ("out".toList, 16)] := by decide
  refine ⟨by decide, by decide, ?_⟩
  rw [hlines, hoffsets]
  refine .cons ⟨by decide, none, .none, by decide⟩ ?_
  refine .cons ⟨by decide, some ⟨"SET".toList, ["7".toList, "r1".toList]⟩,
    .some (by decide), by decide⟩ ?_
  refine .cons ⟨by decide, some ⟨"jumpZ".toList, ["r0".toList, "out".toList]⟩,
    .some (by decide), by decide⟩ ?_
  refine .cons ⟨by decide, some ⟨"jumpg".toList, ["r1".toList, "r0".toList, "l04".toList]⟩,
    .some (by decide), by decide⟩ ?_
  refine .cons ⟨by decide, some ⟨"jump".toList, ["end".toList]⟩,
    .some (by decide), by decide⟩ ?_
  refine .cons ⟨by decide, none, .none, by decide⟩ ?_
  refine .cons ⟨by decide, some ⟨"echo".toList, ["r1".toList]⟩,
    .some (by decide), by decide⟩ ?_
  exact .cons ⟨by decide, none, .none, by decide⟩ .nil

theorem assemble_sevenText : Code.IsValid sevenWords sevenWords.size ∧
    (∀ i < sevenWords.size, ¬ Code.IsUsed sevenWords i → sevenWords.getD i 0 = 0) ∧
      Renders sevenWords sevenRows sevenText ∧
        ∃ p, assemble sevenText = .ok p ∧ p.words = sevenWords := by
  have hvalid : Code.IsValid sevenWords sevenWords.size :=
    Code.validate_eq_ok_iff.mp (by decide)
  have hunused : ∀ i < sevenWords.size, ¬ Code.IsUsed sevenWords i → sevenWords.getD i 0 = 0 := by
    decide
  exact ⟨hvalid, hunused, renders_sevenText, assemble_of_renders hvalid hunused renders_sevenText⟩

end BytecodeSearch.Assembly
