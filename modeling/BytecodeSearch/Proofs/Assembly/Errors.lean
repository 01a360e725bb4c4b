import BytecodeSearch.Proofs.Assembly.Renderings

/-!
# Which line is wrong

A text is refused for one line. If labels are defined twice, it is the first line that defines a label
again; otherwise it is the first line whose instruction is not read, with all labels of the text known.
Any other text is assembled: nothing that is read fails a later check (`exists_check_of_parseCommand`),
so no text is refused as a whole (`assemble_by_line`).

Lines are told by the lines before them. There are as many of these as the number of the line says, less
one, and the instructions on them tell the offset of a slot (`slotOffset`). The two passes skip different
lines, and `getElem?_commands_iff` and `mem_labelOffsets_iff` bring both back to this count.
-/

set_option autoImplicit false

namespace BytecodeSearch

/-- The first step that fails is the one that is reported. -/
theorem mapM_eq_error {ε α β : Type} {f : α → Except ε β} {l : List α} {i : Nat} {a : α} {e : ε}
    (hi : l[i]? = some a) (ha : f a = .error e)
    (hbefore : ∀ j < i, ∀ x, l[j]? = some x → ∃ b, f x = .ok b) : l.mapM f = .error e := by
  have hlt : i < l.length := (List.getElem?_eq_some_iff.mp hi).1
  have hl : l = l.take i ++ a :: l.drop (i + 1) := by
    rw [← (List.getElem?_eq_some_iff.mp hi).2, ← List.drop_eq_getElem_cons hlt,
      List.take_append_drop]
  refine mapM_eq_error_iff.mpr ⟨l.take i, a, l.drop (i + 1), hl, fun x hx => ?_, ha⟩
  obtain ⟨j, hj, hx⟩ := List.mem_take_iff_getElem.mp hx
  exact hbefore j (by omega) x (List.getElem?_eq_some_iff.mpr ⟨by omega, hx⟩)

namespace Assembly

/-! ## What a line says -/

/-- The lines of a text. -/
def textLines (source : String) : List (List Char) := source.toList.splitOn '\n'

/-- The label a line defines, whatever its number. -/
def labelOf (line : List Char) : Option Token :=
  (Statement.ofTokens 0 (tokens line)).bind Statement.label

/-- The instruction on a line, whatever its number. -/
def commandOf (line : List Char) : Option Command :=
  (Statement.ofTokens 0 (tokens line)).bind Statement.command

theorem ofTokens_eq_ofParts (number : Nat) (line : List Char) :
    Statement.ofTokens number (tokens line) =
      Statement.ofParts number (labelOf line) (commandOf line) := by
  unfold labelOf commandOf
  cases tokens line with
  | nil => rfl
  | cons t ts =>
      simp only [Statement.ofTokens]
      cases labelName? t with
      | none => rfl
      | some name => cases Command.ofTokens ts <;> rfl

/-- The offset of the slot of an instruction behind these lines. -/
def slotOffset (before : List (List Char)) : Nat :=
  slotWidth * before.countP fun line => (commandOf line).isSome

/-- The line behind the lines `before` defines this label. -/
def LabelBehind (lines before : List (List Char)) (name : Token) : Prop :=
  ∃ line after, lines = before ++ line :: after ∧ labelOf line = some name

/-- This instruction is on the line behind the lines `before`. -/
def CommandBehind (lines before : List (List Char)) (c : Command) : Prop :=
  ∃ line after, lines = before ++ line :: after ∧ commandOf line = some c

/-- The line behind the lines `before` is the first that is like this. -/
def IsFirst {α : Type} (P : List (List Char) → α → Prop) (before : List (List Char)) (a : α) : Prop :=
  P before a ∧ ∀ front b, P front b → before.length ≤ front.length

theorem exists_isFirst {α : Type} {P : List (List Char) → α → Prop} (h : ∃ before a, P before a) :
    ∃ before a, IsFirst P before a := by
  obtain ⟨⟨before, a⟩, hfirst⟩ := exists_minimalFor_of_wellFoundedLT
    (fun x : List (List Char) × α => P x.1 x.2) (fun x => x.1.length) (Prod.exists.mpr h)
  exact ⟨before, a, hfirst.prop, fun front b hb => Nat.le_of_not_lt (hfirst.not_lt (j := (front, b)) hb)⟩

variable {lines before : List (List Char)} {name : Token} {c : Command}

theorem LabelBehind.length_lt (h : LabelBehind lines before name) : before.length < lines.length := by
  obtain ⟨line, after, rfl, -⟩ := h
  rw [List.length_append, List.length_cons]
  omega

theorem LabelBehind.append (h : LabelBehind lines before name) (more : List (List Char)) :
    LabelBehind (lines ++ more) before name := by
  obtain ⟨line, after, rfl, hline⟩ := h
  exact ⟨line, after ++ more, by rw [List.append_assoc, List.cons_append], hline⟩

/-- An instruction whose slot is before that of another one is on a line before it. -/
theorem CommandBehind.length_lt_of_slotOffset_lt {front : List (List Char)} {d : Command}
    (h : CommandBehind lines before c) (hfront : CommandBehind lines front d)
    (hlt : slotOffset front < slotOffset before) : front.length < before.length := by
  refine Nat.lt_of_not_le fun hle => Nat.not_le_of_lt hlt ?_
  obtain ⟨line, after, rfl, -⟩ := h
  obtain ⟨other, rest, hlines, -⟩ := hfront
  have hprefix : before <+: front :=
    List.prefix_of_prefix_length_le (List.prefix_append _ _) ⟨_, hlines.symm⟩ hle
  exact Nat.mul_le_mul_left _ hprefix.sublist.countP_le

theorem not_commandBehind_nil : ¬ CommandBehind [] before c := by
  rintro ⟨line, after, hlines, -⟩
  exact absurd hlines.symm (List.append_ne_nil_of_right_ne_nil _ (List.cons_ne_nil _ _))

theorem commandBehind_cons_iff {line : List Char} :
    CommandBehind (line :: lines) before c ↔ before = [] ∧ commandOf line = some c ∨
      ∃ front, before = line :: front ∧ CommandBehind lines front c := by
  constructor
  · rintro ⟨here, after, hlines, hc⟩
    cases before with
    | nil =>
        obtain ⟨rfl, -⟩ := List.cons.inj hlines
        exact .inl ⟨rfl, hc⟩
    | cons first front =>
        obtain ⟨rfl, rfl⟩ := List.cons.inj hlines
        exact .inr ⟨front, rfl, here, after, rfl, hc⟩
  · rintro (⟨rfl, hc⟩ | ⟨front, rfl, here, after, rfl, hc⟩)
    · exact ⟨line, lines, rfl, hc⟩
    · exact ⟨here, after, rfl, hc⟩

theorem exists_commandBehind_cons_iff {line : List Char} {P : List (List Char) → Prop} :
    (∃ before, CommandBehind (line :: lines) before c ∧ P before) ↔
      commandOf line = some c ∧ P [] ∨ ∃ front, CommandBehind lines front c ∧ P (line :: front) := by
  simp only [commandBehind_cons_iff]
  constructor
  · rintro ⟨_, ⟨rfl, hc⟩ | ⟨front, rfl, hc⟩, hP⟩
    · exact .inl ⟨hc, hP⟩
    · exact .inr ⟨front, hc, hP⟩
  · rintro (⟨hc, hP⟩ | ⟨front, hc, hP⟩)
    · exact ⟨[], .inl ⟨rfl, hc⟩, hP⟩
    · exact ⟨line :: front, .inr ⟨front, rfl, hc⟩, hP⟩

theorem slotOffset_cons_of_none {line : List Char} (h : commandOf line = none)
    (before : List (List Char)) : slotOffset (line :: before) = slotOffset before := by
  rw [slotOffset, List.countP_cons, h]
  rfl

theorem slotOffset_cons_of_some {line : List Char} (h : commandOf line = some c)
    (before : List (List Char)) : slotOffset (line :: before) = slotOffset before + slotWidth := by
  rw [slotOffset, List.countP_cons, h, Nat.mul_add]
  rfl

/-! ## Statements of lines -/

theorem offsets_lines (first start : Nat) (lines : List (List Char)) :
    Statement.offsets start (statementsFrom first lines) =
      labelOffsets labelOf (fun line => (commandOf line).isSome) start lines := by
  induction lines generalizing first start with
  | nil => rfl
  | cons line lines ih =>
      rw [statementsFrom_cons, ofTokens_eq_ofParts, offsets_ofParts, ih]
      rfl

theorem labels_lines (first : Nat) (lines : List (List Char)) :
    (statementsFrom first lines).filterMap Statement.label = lines.filterMap labelOf := by
  rw [← map_fst_labelOffsets 0 lines, ← map_fst_labelOffsets 0 (statementsFrom first lines)]
  exact congrArg (List.map Prod.fst) (offsets_lines first 0 lines)

/-- The instructions of the statements are those on the lines, each with the number of its line, in the
order of their slots. -/
theorem getElem?_commands_iff {first i : Nat} {x : Nat × Command} :
    (commands (statementsFrom first lines))[i]? = some x ↔
      ∃ before, CommandBehind lines before x.2 ∧ slotOffset before = slotWidth * i ∧
        x.1 = first + before.length := by
  induction lines generalizing first i with
  | nil =>
      constructor
      · intro h
        cases h
      · rintro ⟨before, h, -⟩
        exact absurd h not_commandBehind_nil
  | cons line lines ih =>
      have hnumber : ∀ front : List (List Char),
          x.1 = first + (line :: front).length ↔ x.1 = first + 1 + front.length := by
        intro front
        rw [List.length_cons]
        omega
      rw [statementsFrom_cons, ofTokens_eq_ofParts, commands_ofParts, exists_commandBehind_cons_iff]
      cases hc : commandOf line with
      | none =>
          -- a line without an instruction only moves the numbers of the lines behind it
          simp only [Option.toList_none, List.map_nil, List.nil_append, ih, hnumber,
            slotOffset_cons_of_none hc, reduceCtorEq, false_and, false_or]
      | some here =>
          rw [Option.toList_some, List.map_singleton, List.singleton_append]
          simp only [slotOffset_cons_of_some hc, hnumber]
          cases i with
          | zero =>
              rw [List.getElem?_cons_zero]
              constructor
              · rintro ⟨rfl⟩
                exact .inl ⟨rfl, rfl, rfl⟩
              · rintro (⟨hhere, -, hfirst⟩ | ⟨front, -, hslot, -⟩)
                · rw [Option.some.inj hhere, ← Prod.eta x, hfirst]
                  rfl
                · simp [slotWidth] at hslot
          | succ i =>
              rw [List.getElem?_cons_succ, ih, Nat.mul_succ]
              simp only [Nat.add_right_cancel_iff]
              constructor
              · exact .inr
              · rintro (⟨-, hslot, -⟩ | hbehind)
                · simp [slotOffset, slotWidth] at hslot
                · exact hbehind

theorem CommandBehind.exists_getElem? (h : CommandBehind lines before c) (first : Nat) :
    ∃ i, slotOffset before = slotWidth * i ∧
      (commands (statementsFrom first lines))[i]? = some (first + before.length, c) :=
  ⟨_, rfl, getElem?_commands_iff.mpr ⟨before, h, rfl, rfl⟩⟩

theorem slotWidth_mul_length_commands (first : Nat) (lines : List (List Char)) :
    slotWidth * (commands (statementsFrom first lines)).length = slotOffset lines := by
  induction lines generalizing first with
  | nil => rfl
  | cons line lines ih =>
      rw [statementsFrom_cons, ofTokens_eq_ofParts, commands_ofParts, List.length_append, Nat.mul_add,
        ih, Nat.add_comm]
      cases hc : commandOf line with
      | none => exact (slotOffset_cons_of_none hc lines).symm
      | some c => exact (slotOffset_cons_of_some hc lines).symm

/-! ## Labels that are defined twice -/

/-- The line behind the lines `before` defines a label that one of them defines. -/
def RepeatsBehind (lines before : List (List Char)) (name : Token) : Prop :=
  LabelBehind lines before name ∧ name ∈ before.filterMap labelOf

theorem nodup_labels_iff : (lines.filterMap labelOf).Nodup ↔
    ∀ before name, ¬ RepeatsBehind lines before name := by
  constructor
  · rintro hdistinct before name ⟨⟨line, after, rfl, hline⟩, hmem⟩
    rw [List.filterMap_append, List.filterMap_cons_some hline, List.nodup_append] at hdistinct
    exact hdistinct.2.2 name hmem name List.mem_cons_self rfl
  · intro hnone
    induction lines using List.reverseRecOn with
    | nil => exact List.nodup_nil
    | append_singleton lines line ih =>
        rw [List.filterMap_append, List.nodup_append]
        refine ⟨ih fun before name h => hnone before name ⟨h.1.append [line], h.2⟩, ?_, ?_⟩
        · cases hline : labelOf line <;> simp [hline]
        · rintro name hmem _ hlast rfl
          have hline : labelOf line = some name := by simpa using hlast
          exact hnone lines name ⟨⟨line, [], rfl, hline⟩, hmem⟩

/-- Labels of statements in two parts are collected part by part. -/
theorem collectLabels_append (sts more : List Statement) (offset : Nat) (labels : Labels) :
    collectLabels (sts ++ more) offset labels =
      collectLabels sts offset labels >>= fun r => collectLabels more r.2 r.1 := by
  induction sts generalizing offset labels with
  | nil => rfl
  | cons s sts ih =>
      simp only [List.cons_append, collectLabels]
      cases s.label with
      | none => exact ih _ _
      | some name =>
          dsimp only
          by_cases hname : labels.contains name
          · rw [if_pos hname, if_pos hname]
            rfl
          · rw [if_neg hname, if_neg hname]
            exact ih _ _

theorem statementsFrom_append (first : Nat) (lines more : List (List Char)) :
    statementsFrom first (lines ++ more) =
      statementsFrom first lines ++ statementsFrom (first + lines.length) more := by
  unfold statementsFrom
  rw [List.zipIdx_append, List.filterMap_append, Nat.add_comm]

/-- The first label that is defined again is reported, with the number of the line that does it. -/
theorem labelTable_eq_error (first : Nat) (h : IsFirst (RepeatsBehind lines) before name) :
    labelTable (statementsFrom first lines) =
      .error (.atLine (first + before.length) (.duplicateLabel name)) := by
  obtain ⟨⟨⟨line, after, rfl, hline⟩, hmem⟩, hfirst⟩ := h
  -- nothing is defined again before, so the labels before are all collected
  have hdistinct : (before.filterMap labelOf).Nodup := by
    refine nodup_labels_iff.mpr fun front other hother => ?_
    exact Nat.not_le_of_lt hother.1.length_lt (hfirst front other ⟨hother.1.append _, hother.2⟩)
  rw [← labels_lines first] at hdistinct hmem
  have hcollected : collectLabels (statementsFrom first before) 0 ∅ = .ok (_, _) :=
    collectLabels_eq_ok_iff.mpr ⟨hdistinct, fun _ _ => Std.HashMap.not_mem_empty, rfl⟩
  have hfound : ((∅ : Labels).insertMany (Statement.offsets 0 (statementsFrom first before))).contains
      name = true := by
    rw [Std.HashMap.contains_insertMany_list, Bool.or_eq_true, List.contains_iff_mem]
    exact .inr ((map_fst_labelOffsets 0 _).symm ▸ hmem)
  rw [labelTable, statementsFrom_append, statementsFrom_cons, ofTokens_eq_ofParts, hline,
    collectLabels_append, hcollected]
  simp only [Statement.ofParts, Option.isSome_some, Bool.true_or, if_true, Option.toList_some,
    List.singleton_append, collectLabels, Except.bind, bind, hfound]

/-! ## The table of a text -/

/-- The table gives each label of the lines the offset of the slot behind its definition, `end` the
offset behind the last slot unless a line defines it, and nothing else. -/
def IsTable (labels : Labels) (lines : List (List Char)) : Prop :=
  ∀ name offset, labels[name]? = some offset ↔
    (∃ before, LabelBehind lines before name ∧ offset = slotOffset before) ∨
      name = endLabel ∧ (∀ before, ¬ LabelBehind lines before endLabel) ∧ offset = slotOffset lines

theorem mem_offsets_lines_iff {first offset : Nat} :
    (name, offset) ∈ Statement.offsets 0 (statementsFrom first lines) ↔
      ∃ before, LabelBehind lines before name ∧ offset = slotOffset before := by
  rw [offsets_lines, mem_labelOffsets_iff]
  simp only [Nat.zero_add]
  constructor
  · rintro ⟨before, line, after, hlines, hline, hoffset⟩
    exact ⟨before, ⟨line, after, hlines, hline⟩, hoffset⟩
  · rintro ⟨before, ⟨line, after, hlines, hline⟩, hoffset⟩
    exact ⟨before, line, after, hlines, hline, hoffset⟩

theorem getElem?_labelTable_of_notMem {sts : List Statement} {labels : Labels}
    (h : labelTable sts = .ok labels) (hname : name ∉ sts.filterMap Statement.label)
    (hend : name ≠ endLabel) : labels[name]? = none := by
  obtain ⟨-, rfl⟩ := labelTable_eq_ok_iff.mp h
  rw [Std.HashMap.getElem?_insertIfNew, if_neg fun h => hend (eq_of_beq h.1).symm,
    Std.HashMap.getElem?_insertMany_list_of_contains_eq_false, Std.HashMap.getElem?_empty]
  rw [← Bool.not_eq_true, List.contains_iff_mem]
  exact (map_fst_labelOffsets 0 sts).symm ▸ hname

theorem isTable_labelTable {labels : Labels} {first : Nat}
    (h : labelTable (statementsFrom first lines) = .ok labels) : IsTable labels lines := by
  have hresolves := resolves_labelTable h
  rw [slotWidth_mul_length_commands] at hresolves
  intro name offset
  constructor
  · intro hfound
    by_cases hname : ∃ before, LabelBehind lines before name
    · obtain ⟨before, hbefore⟩ := hname
      have hlabel := hresolves.label name _ (mem_offsets_lines_iff.mpr ⟨before, hbefore, rfl⟩)
      exact .inl ⟨before, hbefore, Option.some.inj (hfound.symm.trans hlabel)⟩
    · have hnotMem : ∀ offset, (name, offset) ∉ Statement.offsets 0 (statementsFrom first lines) :=
        fun offset hmem => hname ((mem_offsets_lines_iff.mp hmem).imp fun _ h => h.1)
      by_cases hend : name = endLabel
      · subst hend
        exact .inr ⟨rfl, not_exists.mp hname,
          Option.some.inj (hfound.symm.trans (hresolves.atEnd hnotMem))⟩
      · rw [getElem?_labelTable_of_notMem h ?_ hend] at hfound
        · cases hfound
        · rw [← map_fst_labelOffsets 0]
          rintro hmem
          obtain ⟨⟨_, offset⟩, hmem, rfl⟩ := List.mem_map.mp hmem
          exact hnotMem offset hmem
  · rintro (hbefore | ⟨rfl, hnone, rfl⟩)
    · exact hresolves.label _ _ (mem_offsets_lines_iff.mpr hbefore)
    · refine hresolves.atEnd fun offset hmem => ?_
      obtain ⟨before, hbefore, -⟩ := mem_offsets_lines_iff.mp hmem
      exact hnone before hbefore

/-! ## Instructions that are not read -/

/-- The instruction on the line behind the lines `before` is not read, for this reason. -/
def FailsBehind (labels : Labels) (lines before : List (List Char)) (cause : LineError) : Prop :=
  ∃ c, CommandBehind lines before c ∧ parseCommand labels (slotOffset before) c = .error cause

section

variable {labels : Labels}

/-- Operands that are read fit their kinds. -/
theorem check_of_parseOperands {pos : Nat} {kinds : List OperandKind} {ts : List Token} {ws : List Word}
    (h : parseOperands labels pos kinds ts = .ok ws) :
    ∀ x ∈ kinds.zip ws, x.1.check pos x.2 = .ok () := by
  induction kinds generalizing ts ws with
  | nil =>
      intro x hx
      cases hx
  | cons kind kinds ih =>
      cases ts with
      | nil =>
          obtain rfl := Except.ok.inj h
          intro x hx
          cases hx
      | cons t ts =>
          simp only [parseOperands, bind_eq_ok_iff] at h
          obtain ⟨w, hw, ws, hws, h⟩ := h
          obtain rfl := Except.ok.inj h
          exact List.forall_mem_cons.mpr ⟨(parseOperand_eq_ok_iff.mp hw).2, ih hws⟩

/-- What is read as a slot passes the check of code. -/
theorem exists_check_of_parseCommand {pos : Nat} {s : Slot} (h : parseCommand labels pos c = .ok s) :
    ∃ op, s.check pos = .ok op := by
  obtain ⟨op, ws, -, hcount, hws, rfl⟩ := parseCommand_eq_ok_iff.mp h
  have hread := parseOperands_eq_ok_iff.mp hws
  have hlength : op.layout.length = ws.length := by
    rw [← hread.length_eq, List.length_zip, hcount, Nat.min_self]
  refine ⟨op, Slot.check_eq_ok_iff.mpr ⟨rfl, fun x hx => ?_⟩⟩
  rw [Slot.zip_args_ofArgs hlength] at hx
  exact check_of_parseOperands hws x hx

theorem exists_parseCommand_of_not_failsBehind (hc : CommandBehind lines before c)
    (h : ∀ cause, ¬ FailsBehind labels lines before cause) :
    ∃ s, parseCommand labels (slotOffset before) c = .ok s := by
  cases hread : parseCommand labels (slotOffset before) c with
  | ok s => exact ⟨s, rfl⟩
  | error cause => exact absurd ⟨c, hc, hread⟩ (h cause)

/-- The first instruction that is not read is reported, with the number of its line. -/
theorem parseSlots_eq_error (first : Nat) {cause : LineError}
    (h : IsFirst (FailsBehind labels lines) before cause) :
    parseSlots labels (commands (statementsFrom first lines)) =
      .error (.atLine (first + before.length) cause) := by
  obtain ⟨⟨c, hc, hcause⟩, hfirst⟩ := h
  obtain ⟨i, hi, hplace⟩ := hc.exists_getElem? first
  have hstep : (commands (statementsFrom first lines)).zipIdx[i]? =
      some ((first + before.length, c), i) := by
    rw [List.getElem?_zipIdx, hplace, Option.map_some, Nat.zero_add]
  refine mapM_eq_error hstep ?_ fun j hj x hx => ?_
  · simp only [← hi, hcause]
  · obtain ⟨y, hy, rfl⟩ := Option.map_eq_some_iff.mp (List.getElem?_zipIdx.symm.trans hx)
    obtain ⟨front, hfront, hslot, -⟩ := getElem?_commands_iff.mp hy
    -- an instruction of a smaller slot is on a line before, and so it is read
    have hlt : front.length < before.length := by
      refine hc.length_lt_of_slotOffset_lt hfront ?_
      rw [hslot, hi]
      exact Nat.mul_lt_mul_of_pos_left hj (by decide)
    obtain ⟨s, hread⟩ := exists_parseCommand_of_not_failsBehind hfront fun other hother =>
      Nat.not_le_of_lt hlt (hfirst front other hother)
    rw [hslot] at hread
    exact ⟨s, by simp only [Nat.zero_add, hread]⟩

/-- If every instruction is read, then all of them are, each for its place. -/
theorem exists_parseSlots (first : Nat) (h : ∀ before cause, ¬ FailsBehind labels lines before cause) :
    ∃ slots, parseSlots labels (commands (statementsFrom first lines)) = .ok slots := by
  refine exists_mapM_eq_ok_iff.mpr fun x hx => ?_
  obtain ⟨before, hc, hslot, -⟩ := getElem?_commands_iff.mp (List.mem_zipIdx_iff_getElem?.mp hx)
  obtain ⟨s, hread⟩ := exists_parseCommand_of_not_failsBehind hc (h before)
  rw [hslot] at hread
  exact ⟨s, by simp only [hread]⟩

end

/-! ## What becomes of a text -/

section

variable {source : String} {labels : Labels}

theorem statements_eq (source : String) :
    statements source.toList = statementsFrom 1 (textLines source) := rfl

theorem assemble_of_repeats (h : ∃ before name, RepeatsBehind (textLines source) before name) :
    ∃ before name, IsFirst (RepeatsBehind (textLines source)) before name ∧
      assemble source = .error (.atLine (before.length + 1) (.duplicateLabel name)) := by
  obtain ⟨before, name, hfirst⟩ := exists_isFirst h
  refine ⟨before, name, hfirst, ?_⟩
  rw [assemble, statements_eq, labelTable_eq_error 1 hfirst, Nat.add_comm]
  rfl

theorem assemble_of_fails (hlabels : labelTable (statements source.toList) = .ok labels)
    (h : ∃ before cause, FailsBehind labels (textLines source) before cause) :
    ∃ before cause, IsFirst (FailsBehind labels (textLines source)) before cause ∧
      assemble source = .error (.atLine (before.length + 1) cause) := by
  obtain ⟨before, cause, hfirst⟩ := exists_isFirst h
  refine ⟨before, cause, hfirst, ?_⟩
  rw [assemble, hlabels, statements_eq, Nat.add_comm]
  simp only [bind, Except.bind, parseSlots_eq_error 1 hfirst]

/-- If every instruction is read, the slots are put together, and each stands in its place. -/
theorem assemble_of_reads (hlabels : labelTable (statements source.toList) = .ok labels)
    (h : ∀ before cause, ¬ FailsBehind labels (textLines source) before cause) :
    ∃ p, assemble source = .ok p ∧ p.words.size = slotOffset (textLines source) ∧
      ∀ before c, CommandBehind (textLines source) before c →
        parseCommand labels (slotOffset before) c = .ok (Slot.read p.words (slotOffset before)) := by
  obtain ⟨slots, hslots⟩ := exists_parseSlots 1 h
  obtain ⟨hcount, hread⟩ := parseSlots_eq_ok_iff.mp hslots
  have hvalid := isValid_flatMap_words_iff.mpr fun i (hi : i < slots.length) =>
    exists_check_of_parseCommand (hread i (hcount.symm ▸ hi) hi)
  obtain ⟨p, hp⟩ := Program.exists_ofWords_eq_ok_iff.mpr hvalid
  have hwords := Program.words_of_ofWords hp
  refine ⟨p, assemble_eq_ok_iff.mpr ⟨labels, slots, hlabels, hslots, hp⟩, ?_, fun before c hc => ?_⟩
  · rw [hwords, List.size_toArray, length_flatMap_words, ← hcount, slotWidth_mul_length_commands]
  · obtain ⟨i, hi, hplace⟩ := hc.exists_getElem? 1
    obtain ⟨hlt, hcommand⟩ := List.getElem?_eq_some_iff.mp hplace
    have hslot := hread i hlt (hcount ▸ hlt)
    rwa [hcommand, ← read_flatMap_words, ← hwords, ← hi] at hslot

end

/-- **Which line is wrong.** If lines of a text define labels that lines before them define, the text is
refused for the first such line. Otherwise there is a table of its labels; and if instructions are not
read with it, each for the offset of its slot, the text is refused for the first such line and for the
reason that its instruction is not read. Otherwise the text is assembled, with one slot for each
instruction, and that is what the instruction is read as. So a text is assembled, or one line of it is
wrong: nothing that is read fails the check of the whole program. -/
theorem assemble_by_line (source : String) :
    ((∃ before name, RepeatsBehind (textLines source) before name) →
      ∃ before name, IsFirst (RepeatsBehind (textLines source)) before name ∧
        assemble source = .error (.atLine (before.length + 1) (.duplicateLabel name))) ∧
    ((∀ before name, ¬ RepeatsBehind (textLines source) before name) →
      ∃ labels, IsTable labels (textLines source) ∧
        ((∃ before cause, FailsBehind labels (textLines source) before cause) →
          ∃ before cause, IsFirst (FailsBehind labels (textLines source)) before cause ∧
            assemble source = .error (.atLine (before.length + 1) cause)) ∧
        ((∀ before cause, ¬ FailsBehind labels (textLines source) before cause) →
          ∃ p, assemble source = .ok p ∧ p.words.size = slotOffset (textLines source) ∧
            ∀ before c, CommandBehind (textLines source) before c →
              parseCommand labels (slotOffset before) c =
                .ok (Slot.read p.words (slotOffset before)))) ∧
    ((∃ p, assemble source = .ok p) ∨ ∃ line cause, assemble source = .error (.atLine line cause)) := by
  by_cases hrepeats : ∃ before name, RepeatsBehind (textLines source) before name
  · obtain ⟨before, name, hfirst, heq⟩ := assemble_of_repeats hrepeats
    refine ⟨fun _ => ⟨before, name, hfirst, heq⟩, fun hnone => ?_, .inr ⟨_, _, heq⟩⟩
    exact absurd hfirst.1 (hnone before name)
  · have hnone : ∀ before name, ¬ RepeatsBehind (textLines source) before name :=
      fun before name h => hrepeats ⟨before, name, h⟩
    obtain ⟨labels, hlabels⟩ : ∃ labels, labelTable (statements source.toList) = .ok labels := by
      refine ⟨_, labelTable_eq_ok_iff.mpr ⟨?_, rfl⟩⟩
      rw [statements_eq, labels_lines]
      exact nodup_labels_iff.mpr hnone
    refine ⟨fun h => absurd h hrepeats, fun _ => ⟨labels, isTable_labelTable hlabels,
      assemble_of_fails hlabels, assemble_of_reads hlabels⟩, ?_⟩
    by_cases hfails : ∃ before cause, FailsBehind labels (textLines source) before cause
    · obtain ⟨before, cause, -, heq⟩ := assemble_of_fails hlabels hfails
      exact .inr ⟨_, _, heq⟩
    · obtain ⟨p, hp, -⟩ := assemble_of_reads hlabels fun before cause h => hfails ⟨before, cause, h⟩
      exact .inl ⟨p, hp⟩

/-- A text that defines a label again on its third line, with an instruction on the first line that is
not read. -/
def againText : String := "a: echo r9\n\na: jump a"

/-- A text whose fourth line holds an instruction for which there is no register. -/
def strayText : String := "start: echo r0\n\n# go\necho r8"

/-- A text that is assembled. -/
def plainText : String := "\nstart: echo r1"

theorem assemble_again_stray_plain :
    assemble againText = .error (.atLine 3 (.duplicateLabel ['a'])) ∧
    assemble strayText = .error (.atLine 4 (.operand (.registerOutOfRange 8 4))) ∧
    ∃ p, assemble plainText = .ok p ∧ p.words.size = 4 := by
  refine ⟨?_, ?_, ?_⟩
  · have hlines : textLines againText = ["a: echo r9".toList, [], "a: jump a".toList] := by decide
    obtain ⟨before, name, ⟨⟨⟨line, after, hline, hname⟩, hmem⟩, -⟩, heq⟩ :=
      (assemble_by_line againText).1 ⟨["a: echo r9".toList, []], ['a'],
        ⟨_, [], hlines, by decide⟩, by decide⟩
    rw [hlines] at hline
    rcases before with - | ⟨first, - | ⟨second, - | ⟨third, more⟩⟩⟩
    · cases hmem
    · obtain ⟨-, hline⟩ := List.cons.inj hline
      obtain ⟨rfl, -⟩ := List.cons.inj hline
      cases hname
    · obtain ⟨-, hline⟩ := List.cons.inj hline
      obtain ⟨-, hline⟩ := List.cons.inj hline
      obtain ⟨rfl, -⟩ := List.cons.inj hline
      rw [heq, ← Option.some.inj hname]
      rfl
    · simp at hline
  · have hlines : textLines strayText =
        ["start: echo r0".toList, [], "# go".toList, "echo r8".toList] := by decide
    obtain ⟨labels, -, hfails, -⟩ :=
      (assemble_by_line strayText).2.1 (nodup_labels_iff.mp (by decide))
    obtain ⟨before, cause, ⟨⟨c, hc, hcause⟩, -⟩, heq⟩ :=
      hfails ⟨["start: echo r0".toList, [], "# go".toList], _, ⟨"echo".toList, ["r8".toList]⟩,
        ⟨_, [], hlines, by decide⟩, rfl⟩
    rw [hlines] at hc
    simp only [commandBehind_cons_iff, not_commandBehind_nil] at hc
    rcases hc with ⟨rfl, hc⟩ | ⟨_, rfl, ⟨-, hc⟩ | ⟨_, rfl, ⟨-, hc⟩ |
      ⟨_, rfl, ⟨rfl, hc⟩ | ⟨_, -, ⟨⟩⟩⟩⟩⟩
    · obtain rfl := Option.some.inj hc
      cases hcause
    · cases hc
    · cases hc
    · obtain rfl := Option.some.inj hc
      cases hcause
      exact heq
  · have hlines : textLines plainText = [[], "start: echo r1".toList] := by decide
    obtain ⟨labels, -, -, hreads⟩ :=
      (assemble_by_line plainText).2.1 (nodup_labels_iff.mp (by decide))
    have hnone : ∀ before cause, ¬ FailsBehind labels (textLines plainText) before cause := by
      rintro before cause ⟨c, hc, hcause⟩
      rw [hlines] at hc
      simp only [commandBehind_cons_iff, not_commandBehind_nil] at hc
      rcases hc with ⟨-, hc⟩ | ⟨_, rfl, ⟨rfl, hc⟩ | ⟨_, -, ⟨⟩⟩⟩
      · cases hc
      · obtain rfl := Option.some.inj hc
        cases hcause
    obtain ⟨p, hp, hsize, -⟩ := hreads hnone
    exact ⟨p, hp, hsize.trans (by decide)⟩

end Assembly

end BytecodeSearch
