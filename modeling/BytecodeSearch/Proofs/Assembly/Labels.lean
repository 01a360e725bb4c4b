import BytecodeSearch.Assembly.Labels
import BytecodeSearch.Proofs.Isa.Decode
import Mathlib.Data.List.Nodup

/-!
# What labels stand for

A label stands for the offset of the instruction that follows its definition, or of the end of the
program if none follows; so for as many slots as there are instructions before it (`labelOffsets`,
`mem_labelOffsets_iff`). A label table is made exactly if no label is defined twice
(`labelTable_eq_ok_iff`), and then it gives each label its offset, and `end` the offset of the end unless
the text defines it (`Resolves`, `resolves_labelTable`).
-/

set_option autoImplicit false

namespace BytecodeSearch.Assembly

/-! ## Offsets -/

/-- The labels that a list of lines defines, each with its offset, when the first instruction stands at
`offset`. Of a line, `label` tells which label it defines, and `holds` whether it holds an
instruction. -/
def labelOffsets {α : Type} (label : α → Option Token) (holds : α → Bool) :
    Nat → List α → List (Token × Nat)
  | _, [] => []
  | offset, a :: rest =>
      (label a).toList.map (·, offset) ++
        labelOffsets label holds (if holds a then offset + slotWidth else offset) rest

section

variable {α : Type} {label : α → Option Token} {holds : α → Bool}

theorem map_fst_labelOffsets (offset : Nat) (lines : List α) :
    (labelOffsets label holds offset lines).map Prod.fst = lines.filterMap label := by
  induction lines generalizing offset with
  | nil => rfl
  | cons a lines ih =>
      rw [labelOffsets, List.map_append, ih, List.filterMap_cons]
      cases label a <;> rfl

theorem next_offset (holds : α → Bool) (offset : Nat) (a : α) (before : List α) :
    (if holds a then offset + slotWidth else offset) + slotWidth * before.countP holds =
      offset + slotWidth * (a :: before).countP holds := by
  by_cases ha : holds a
  · rw [if_pos ha, List.countP_cons_of_pos ha, Nat.mul_add]
    omega
  · rw [if_neg ha, List.countP_cons_of_neg ha]

/-- A label stands for the slots of the instructions before its definition. -/
theorem mem_labelOffsets_iff {name : Token} {start offset : Nat} {lines : List α} :
    (name, offset) ∈ labelOffsets label holds start lines ↔
      ∃ before a after, lines = before ++ a :: after ∧ label a = some name ∧
        offset = start + slotWidth * before.countP holds := by
  induction lines generalizing start with
  | nil => simp [labelOffsets]
  | cons a lines ih =>
      rw [labelOffsets, List.mem_append, ih]
      constructor
      · rintro (hhere | ⟨before, b, after, rfl, hb, rfl⟩)
        · obtain ⟨found, hlabel, heq⟩ := List.mem_map.mp hhere
          obtain ⟨rfl, rfl⟩ := Prod.mk.inj heq
          exact ⟨[], a, lines, rfl, Option.mem_toList.mp hlabel, rfl⟩
        · exact ⟨a :: before, b, after, rfl, hb, next_offset holds start a before⟩
      · rintro ⟨before, b, after, hlines, hb, rfl⟩
        cases before with
        | nil =>
            obtain ⟨rfl, -⟩ := List.cons.inj hlines
            exact .inl (List.mem_map.mpr ⟨name, Option.mem_toList.mpr hb, rfl⟩)
        | cons c before =>
            obtain ⟨rfl, rfl⟩ := List.cons.inj hlines
            exact .inr ⟨before, b, after, rfl, hb, (next_offset holds start a before).symm⟩

end

/-- The labels of statements with their offsets. -/
abbrev Statement.offsets : Nat → List Statement → List (Token × Nat) :=
  labelOffsets Statement.label fun s => s.command.isSome

theorem countP_isSome_command (sts : List Statement) :
    sts.countP (fun s => s.command.isSome) = (commands sts).length := by
  induction sts with
  | nil => rfl
  | cons s sts ih =>
      rw [List.countP_cons, ih]
      unfold commands
      rw [List.filterMap_cons]
      cases s.command <;> rfl

/-! ## Tables -/

/-- Labels are collected exactly if none of them is defined before, and then all are entered. -/
theorem collectLabels_eq_ok_iff {sts : List Statement} {offset : Nat} {labels : Labels}
    {result : Labels × Nat} :
    collectLabels sts offset labels = .ok result ↔
      (sts.filterMap Statement.label).Nodup ∧
        (∀ name ∈ sts.filterMap Statement.label, name ∉ labels) ∧
          (labels.insertMany (Statement.offsets offset sts),
            offset + slotWidth * (commands sts).length) = result := by
  induction sts generalizing offset labels with
  | nil =>
      simp [collectLabels, labelOffsets, commands]
  | cons s sts ih =>
      have hnext := next_offset (fun s : Statement => s.command.isSome) offset s sts
      rw [countP_isSome_command, countP_isSome_command] at hnext
      simp only [collectLabels, Statement.offsets, labelOffsets, List.filterMap_cons, ← hnext]
      cases s.label with
      | none =>
          exact ih
      | some name =>
          simp only [Std.HashMap.contains_iff_mem]
          by_cases hname : name ∈ labels
          · rw [if_pos hname]
            constructor
            · intro h
              cases h
            · rintro ⟨-, hnew, -⟩
              exact absurd hname (hnew name List.mem_cons_self)
          · rw [if_neg hname, ih]
            -- a later label is new if it is neither this one nor one of the labels before
            simp only [List.nodup_cons, List.forall_mem_cons, Std.HashMap.mem_insert, beq_iff_eq,
              Option.toList_some, List.map_cons, List.map_nil, List.singleton_append,
              Std.HashMap.insertMany_cons]
            constructor
            · rintro ⟨hdistinct, hnew, rfl⟩
              exact ⟨⟨fun hmem => hnew name hmem (.inl rfl), hdistinct⟩,
                ⟨hname, fun n hn hmem => hnew n hn (.inr hmem)⟩, rfl⟩
            · rintro ⟨⟨hother, hdistinct⟩, ⟨-, hnew⟩, rfl⟩
              refine ⟨hdistinct, fun n hn => ?_, rfl⟩
              rintro (rfl | hmem)
              · exact hother hn
              · exact hnew n hn hmem

/-- A table is made exactly if no label is defined twice. -/
theorem labelTable_eq_ok_iff {sts : List Statement} {labels : Labels} :
    labelTable sts = .ok labels ↔ (sts.filterMap Statement.label).Nodup ∧
      ((∅ : Labels).insertMany (Statement.offsets 0 sts)).insertIfNew endLabel
        (slotWidth * (commands sts).length) = labels := by
  simp only [labelTable, bind_eq_ok_iff, Prod.exists, collectLabels_eq_ok_iff, Nat.zero_add,
    Prod.mk.injEq]
  constructor
  · rintro ⟨_, _, ⟨hdistinct, -, rfl, rfl⟩, h⟩
    exact ⟨hdistinct, Except.ok.inj h⟩
  · rintro ⟨hdistinct, rfl⟩
    exact ⟨_, _, ⟨hdistinct, fun _ _ => Std.HashMap.not_mem_empty, rfl, rfl⟩, rfl⟩

/-- What a table has to say of labels that stand for offsets, in a program of `length` words. -/
structure Resolves (labels : Labels) (offsets : List (Token × Nat)) (length : Nat) : Prop where
  /-- A label stands for its offset. -/
  label : ∀ name offset, (name, offset) ∈ offsets → labels[name]? = some offset
  /-- `end` stands for the end of the program, unless it is defined. -/
  atEnd : (∀ offset, (endLabel, offset) ∉ offsets) → labels[endLabel]? = some length

/-- A table resolves the labels it is made of. -/
theorem resolves_labelTable {sts : List Statement} {labels : Labels}
    (h : labelTable sts = .ok labels) :
    Resolves labels (Statement.offsets 0 sts) (slotWidth * (commands sts).length) := by
  obtain ⟨hdistinct, rfl⟩ := labelTable_eq_ok_iff.mp h
  have hnames : (Statement.offsets 0 sts).map Prod.fst = sts.filterMap Statement.label :=
    map_fst_labelOffsets 0 sts
  have hpairwise : (Statement.offsets 0 sts).Pairwise fun a b => (a.1 == b.1) = false := by
    rw [← hnames, List.Nodup, List.pairwise_map] at hdistinct
    exact hdistinct.imp fun hne => by simpa using hne
  constructor
  · intro name offset hmem
    have hentered : ((∅ : Labels).insertMany (Statement.offsets 0 sts))[name]? = some offset :=
      Std.HashMap.getElem?_insertMany_list_of_mem BEq.rfl hpairwise hmem
    rw [Std.HashMap.getElem?_insertIfNew, if_neg, hentered]
    rintro ⟨heq, hnew⟩
    rw [beq_iff_eq] at heq
    rw [heq] at hnew
    exact absurd (hentered.symm.trans (Std.HashMap.getElem?_eq_none hnew)) (by simp)
  · intro hnone
    rw [Std.HashMap.getElem?_insertIfNew, if_pos]
    refine ⟨BEq.rfl, ?_⟩
    rw [← Std.HashMap.contains_iff_mem, Std.HashMap.contains_insertMany_list, Bool.or_eq_true,
      List.contains_iff_mem, List.mem_map]
    rintro (hmem | ⟨⟨name, offset⟩, hmem, rfl⟩)
    · simp at hmem
    · exact hnone offset hmem

end BytecodeSearch.Assembly
