import BytecodeSearch.Proofs.Machine.Extension
import BytecodeSearch.Proofs.Search.Tallies

/-!
# Edits that append

An edit that appends an instruction cannot make any case worse. The edited program extends the one
before, so on every case it puts out what that one has, and maybe a word more; more output scores no
less; and the program before scores at least the best score of the case. So the edit is kept, in every
state that a search comes to (`kept_of_appends`).
-/

set_option autoImplicit false

namespace BytecodeSearch

/-- An edit behind the last slot of a program extends the program. -/
theorem Editor.extends_apply {e : Editor} {edit : Edit} {registers : Nat}
    (hedit : edit.IsLegal e.program.length registers) (happends : edit.pos = e.program.length) :
    (e.apply edit).program.length = e.program.length + slotWidth ∧
      Code.Extends e.program.code e.program.length (e.apply edit).program.code
        (e.apply edit).program.length := by
  have hlength : (e.apply edit).program.length = e.program.length + slotWidth := by
    show edit.length = _
    rcases hedit.place with ⟨-, hgrown, -⟩ | ⟨hinside, -⟩
    · exact hgrown
    · omega
  refine ⟨hlength, by rw [hlength]; exact Nat.le_add_right _ _, fun q hlt hq => ?_⟩
  have hne : q ≠ edit.pos := by omega
  exact (Program.read_write_ne e.program edit.slot edit.length hedit.aligned hq hne).symm

namespace Search

variable {ρ : Type}

/-- Whether the edit that a search draws next appends an instruction: it writes behind the last slot. -/
def Appends {σ : Type} [Generator ρ] (s : Search σ ρ) : Prop :=
  (s.editor.mutate s.settings.mutationSpeed s.settings.registers s.generator).1 = s.program.length

/-- No verdict rejects an edit that appends. -/
theorem Inv.not_rejected_of_extends {s : Search NoHost ρ} (hs : Inv s) {p : Program} {v : Verdict}
    (hp : Code.IsValid p.code p.length)
    (hextends : Code.Extends s.program.code s.program.length p.code p.length)
    (hjudged : Judged s.bestScore (fun i => (s.case i).expected)
      (fun i out => p.execute (s.case i).input s.settings.memorySize = .ok out) true
      (List.range (s.current + 1)) v) : v ≠ .rejected := by
  refine hjudged.ne_rejected fun i _ out hout => ?_
  obtain ⟨old, hold, hheld⟩ := hs.held i
  obtain ⟨old', more, hold', hnew, -⟩ := Program.exists_execute_eq_append hextends hs.valid hp
    (s.case i).input s.settings.memorySize
  -- the outputs are the ones the search has and gets
  obtain rfl : old = old' := Except.ok.inj (hold.symm.trans hold')
  obtain rfl : out = old ++ more := Except.ok.inj (hout.symm.trans hnew)
  have hfront : old.toList.Sublist (old ++ more).toList := by
    rw [Array.toList_append]
    exact List.sublist_append_left _ _
  calc s.bestScore i
      ≤ Score.lcs old (s.case i).expected := hheld
    _ ≤ Score.lcs (old ++ more) (s.case i).expected := Score.lcs_mono hfront _

variable [Generator ρ] {s t : Search NoHost ρ} {v : Verdict}

/-- A call of one attempt leaves the editor and the counts of the attempt. -/
theorem step_one_of_attempt_eq (hopen : s.isFinished = false) (h : s.attempt = (t, .ok v)) :
    (s.step 1).1.editor = t.editor ∧ (s.step 1).1.tally = t.tally := by
  have hverdict : s.attempt.2 = .ok v := by rw [h]
  have hstate : s.attempt.1 = t := by rw [h]
  by_cases hsolved : v = .tied true
  · rw [hsolved] at hverdict
    rw [(step_one_of_solved hopen hverdict).1, hstate, advance_fst]
    exact ⟨rfl, rfl⟩
  · rw [step_one_of_kept hopen hverdict hsolved, hstate]
    exact ⟨rfl, rfl⟩

/-- **An edit that appends is kept.** Without a host, in every reachable state with a case left to
solve: if the next edit appends an instruction, scoring comes to a verdict, which is not to reject it,
and the attempt keeps the edit, and so does the call that makes it. The output on every case is the one
from before, maybe followed by one word. -/
theorem kept_of_appends (h : Reachable s) (hopen : s.isFinished = false) (happends : s.Appends) :
    ∃ t v, s.edit.evaluate.2 = .ok v ∧ v ≠ .rejected ∧ s.attempt = (t, .ok v) ∧
      t.editor = s.edit.editor.commit ∧ t.program.length = s.program.length + slotWidth ∧
      t.tally.accepted = s.tally.accepted + 1 ∧ t.tally.rejected = s.tally.rejected ∧
      (s.step 1).1.editor = t.editor ∧ (s.step 1).1.tally = t.tally ∧
      ∀ i, ∃ out more, s.outputOn i = .ok out ∧ t.outputOn i = .ok (out ++ more) ∧
        more.size ≤ 1 := by
  have hs := h.inv
  obtain ⟨edit, g, hlegal, hmutate⟩ := Editor.exists_mutate_eq (e := s.editor)
    hs.valid.isLength.1 s.settings.mutationSpeed s.settings.registers s.generator
  have hedit : s.edit = { s with
      editor := s.editor.apply edit
      generator := g
      tally := { s.tally with attempts := s.tally.attempts + 1 } } := by rw [Search.edit, hmutate]
  have hpos : edit.pos = s.program.length := by
    rw [Appends, hmutate] at happends
    exact happends
  obtain ⟨hlength, hextends⟩ := Editor.extends_apply (e := s.editor) hlegal hpos
  have hvalid := Editor.isValid_apply hs.valid hlegal (Edit.clampRegisters_le _)
  obtain ⟨m, v, -, hjudged, heq⟩ := exists_attempt_of_edit_eq
    (fun p i out => p.execute (s.case i).input s.settings.memorySize = .ok out)
    hs.valid hlegal hedit (exists_runCase_yields s) hs.memory
  have hkept : v ≠ .rejected := hs.not_rejected_of_extends hvalid hextends hjudged
  obtain ⟨heditor, haccepted, hrejected⟩ := settled_of_kept s edit g m hkept
  obtain ⟨hcall, htally⟩ := step_one_of_attempt_eq hopen heq
  have hprogram : (s.settled edit g m v).program = (s.editor.apply edit).program := by
    rw [settled_program, if_neg hkept]
  refine ⟨s.settled edit g m v, v, by rw [← snd_attempt, heq], hkept, heq, by rw [heditor, hedit],
    by rw [hprogram, hlength, program], haccepted, hrejected, hcall, htally, fun i => ?_⟩
  obtain ⟨out, more, hout, hnew, hsize⟩ := Program.exists_execute_eq_append hextends hs.valid
    hvalid (s.case i).input s.settings.memorySize
  refine ⟨out, more, hout, ?_, ?_⟩
  · rw [outputOn, hprogram, settled_settings, case, settled_curriculum]
    exact hnew
  · -- the edited program has one slot more
    rw [hlength, Nat.add_sub_cancel_left] at hsize
    exact hsize

/-- Behind its third edit the search appends an instruction. -/
theorem kept_solvingTied : Reachable solvingTied ∧ solvingTied.isFinished = false ∧
    solvingTied.Appends ∧ ∃ t v, solvingTied.attempt = (t, .ok v) ∧ v ≠ .rejected ∧
      t.program.length = 24 ∧ solvingGrown.editor = t.editor := by
  have hopen : solvingTied.isFinished = false := by decide +kernel
  have happends : solvingTied.Appends := by
    show (_ : Nat) = _
    decide +kernel
  have hlength : solvingTied.program.length = 20 := by decide +kernel
  obtain ⟨t, v, -, hkept, heq, -, hgrown, -, -, hcall, -⟩ :=
    kept_of_appends reachable_solvingTied hopen happends
  refine ⟨reachable_solvingTied, hopen, happends, t, v, heq, hkept, ?_, hcall⟩
  rw [hgrown, hlength]
  rfl

end Search

end BytecodeSearch
