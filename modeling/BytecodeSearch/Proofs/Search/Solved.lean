import BytecodeSearch.Proofs.Search.BestScores
import BytecodeSearch.Random.Replay
import Mathlib

/-!
# Solved cases

Without a host the output of the program on a case is the one it has on a fresh machine
(`outputOn`), whatever the search has run before. `Inv` says what a search knows about it: no score
is below the best one, and behind the last case every case passes. It holds at the start and behind
every verdict, so it holds of every reachable search (`Reachable.inv`).
-/

set_option autoImplicit false

namespace BytecodeSearch.Search

variable {σ ρ : Type}

/-- The output of the current program on a case, on a fresh machine. -/
def outputOn (s : Search σ ρ) (i : Nat) : Except RunError (Array Word) :=
  s.program.execute (s.case i).input s.settings.memorySize

/-- The score of the current program on a case. -/
def scoreOn (s : Search σ ρ) (i : Nat) : Except RunError Nat :=
  (s.outputOn i).map fun out => Score.lcs out (s.case i).expected

/-- The current program has an output on the case, and the expected words stand in it in one run. -/
def Passes (s : Search σ ρ) (i : Nat) : Prop :=
  ∃ out, s.outputOn i = .ok out ∧ (s.case i).expected.toList <:+: out.toList

/-- What a search without a host knows about its program. -/
structure Inv (s : Search NoHost ρ) : Prop extends TableInv s where
  /-- The machine has the memory that the settings ask for. -/
  memory : s.machine.memory.size = s.settings.memorySize
  /-- No score is below the best one. -/
  held : ∀ i, ∃ out, s.outputOn i = .ok out ∧ s.bestScore i ≤ Score.lcs out (s.case i).expected
  /-- When no case is left, every case passes. -/
  passed : s.isFinished = true → ∀ i < s.curriculum.size, s.Passes i

theorem isFinished_iff {s : Search σ ρ} : s.isFinished = true ↔ s.curriculum.size ≤ s.current :=
  decide_eq_true_iff

theorem isFinished_eq_false_iff {s : Search σ ρ} :
    s.isFinished = false ↔ s.current < s.curriculum.size := by
  rw [isFinished, decide_eq_false_iff_not, Nat.not_le]

theorem TableInv.exists_outputOn_eq_ok {s : Search σ ρ} (hs : TableInv s) (i : Nat) :
    ∃ out, s.outputOn i = .ok out :=
  Program.exists_execute_eq_ok hs.valid _ _

theorem inv_ofParts (curriculum : Array Case) (settings : Settings) {program : Program}
    (generator : ρ) (hvalid : program.validate = .ok ()) :
    Inv (ofParts curriculum settings program NoHost.mk generator).1 := by
  have htable := tableInv_ofParts curriculum settings NoHost.mk generator hvalid
  refine { htable with memory := Memory.size_zero _, held := fun i => ?_, passed := ?_ }
  · obtain ⟨out, hout⟩ := htable.exists_outputOn_eq_ok i
    refine ⟨out, hout, ?_⟩
    rw [bestScore_ofParts]
    exact Nat.zero_le _
  · intro hdone i hi
    have hnone := isFinished_iff.mp hdone
    exact absurd (Nat.lt_of_lt_of_le hi hnone) (Nat.not_lt_zero i)

/-! ## Attempts -/

/-- What an attempt from `s` that has come to the verdict `v` has left. -/
structure Attempted (s t : Search NoHost ρ) (v : Verdict) : Prop where
  /-- The program and the best scores are in order. -/
  table : TableInv t
  /-- The cases are the same. -/
  curriculum : t.curriculum = s.curriculum
  /-- The current one is the same. -/
  current : t.current = s.current
  /-- The verdict is taken down. -/
  best : t.best = v.raise s.best
  /-- The machine keeps its memory. -/
  memory : t.machine.memory.size = t.settings.memorySize
  /-- A program whose edit is undone gives the outputs it gave. -/
  undone : v = .rejected → ∀ i, t.outputOn i = s.outputOn i
  /-- The verdict is about the program whose edit is kept. -/
  judged : v ≠ .rejected → Judged s.bestScore (fun i => (s.case i).expected)
    (fun i out => t.outputOn i = .ok out) true (List.range (s.current + 1)) v

/-- The machine of a search gives every valid program the output of a fresh machine. -/
theorem exists_runCase_yields (s : Search NoHost ρ) (p : Program)
    (hp : Code.IsValid p.code p.length) (i : Nat) (m : Machine NoHost)
    (hm : m.memory.size = s.settings.memorySize) :
    ∃ m', runCase p (s.case i) m = (m', .ok (Score.lcs m'.output (s.case i).expected)) ∧
      m'.memory.size = s.settings.memorySize ∧
      p.execute (s.case i).input s.settings.memorySize = .ok m'.output := by
  rw [← hm]
  exact exists_runCase_eq_execute hp (s.case i) m

theorem attempted_of_attempt_eq [Generator ρ] {s t : Search NoHost ρ} {v : Verdict} (hs : Inv s)
    (hopen : s.current < s.curriculum.size) (h : s.attempt = (t, .ok v)) : Attempted s t v := by
  obtain ⟨edit, g, m, v', hlegal, hm, hjudged, heq⟩ := exists_attempt_eq
    (I := fun m => m.memory.size = s.settings.memorySize)
    (fun p i out => p.execute (s.case i).input s.settings.memorySize = .ok out)
    hs.valid (exists_runCase_yields s) hs.memory
  rw [h] at heq
  simp only [Prod.mk.injEq, Except.ok.injEq] at heq
  obtain ⟨ht, rfl⟩ := heq
  have htable := tableInv_settled hs.toTableInv hopen hlegal (Edit.clampRegisters_le _) hjudged g m
  have hprogram := settled_program s edit g m v
  rw [← ht] at htable hprogram
  have hcurriculum : t.curriculum = s.curriculum := by rw [ht, settled_curriculum]
  have hsettings : t.settings = s.settings := by rw [ht, settled_settings]
  have houtput : ∀ i, t.outputOn i =
      t.program.execute (s.case i).input s.settings.memorySize := by
    intro i
    rw [outputOn, case, hcurriculum, hsettings, case]
  refine ⟨htable, hcurriculum, by rw [ht, settled_current], by rw [ht, settled_best], ?_, ?_, ?_⟩
  · rw [hsettings, ht, settled_machine, hm]
  · intro hv i
    rw [houtput, hprogram, if_pos hv]
    exact Editor.execute_rollback_apply hs.valid hlegal.aligned _ _
  · intro hv
    rw [if_neg hv] at hprogram
    simp only [houtput, hprogram]
    exact hjudged

/-- **A kept edit scores what the table says**, on every case up to the current one, also when
scoring has stopped at a case that has become better. -/
theorem Attempted.scoreOn_eq {s t : Search NoHost ρ} {v : Verdict} (h : Attempted s t v)
    (hs : Inv s) (hopen : s.current < s.curriculum.size) (hkept : v ≠ .rejected) {i : Nat}
    (hi : i ≤ s.current) : t.scoreOn i = .ok (t.bestScore i) := by
  obtain ⟨out, hout, hscore⟩ := hs.score_of_kept hopen (h.judged hkept) hkept hi
  rw [scoreOn, hout, case, h.curriculum, bestScore, h.best, ← hscore]
  rfl

/-- No attempt lowers a best score. -/
theorem Attempted.bestScore_le {s t : Search NoHost ρ} {v : Verdict} (h : Attempted s t v)
    (hs : Inv s) (hopen : s.current < s.curriculum.size) (i : Nat) :
    s.bestScore i ≤ t.bestScore i := by
  have hbest : t.bestScore i = (v.raise s.best).getD i 0 := by rw [bestScore, h.best]
  rw [hbest]
  by_cases hv : v = .rejected
  · rw [hv]
    exact Nat.le_refl _
  · exact hs.le_raise hopen (h.judged hv) i

/-- An attempt that solves the current case leaves a program that passes it and all cases before. -/
theorem Attempted.passes {s t : Search NoHost ρ} (h : Attempted s t (.tied true)) {i : Nat}
    (hi : i ≤ s.current) : t.Passes i := by
  have hmem : i ∈ List.range (s.current + 1) := List.mem_range.mpr (Nat.lt_succ_iff.mpr hi)
  obtain ⟨out, hout, -, hcontains⟩ := (h.judged (by simp)).of_tied.2 i hmem
  refine ⟨out, hout, ?_⟩
  rw [case, h.curriculum]
  exact Score.contains_iff_infix.mp (hcontains rfl)

theorem inv_of_attempted {s t : Search NoHost ρ} {v : Verdict} (h : Attempted s t v) (hs : Inv s)
    (hopen : s.current < s.curriculum.size) : Inv t := by
  refine { h.table with memory := h.memory, held := fun i => ?_, passed := fun hdone => ?_ }
  · by_cases hv : v = .rejected
    · -- the edit is undone: outputs and best scores are those from before
      obtain ⟨out, hout, hle⟩ := hs.held i
      refine ⟨out, (h.undone hv i).trans hout, ?_⟩
      rw [case, h.curriculum, bestScore, h.best, hv]
      exact hle
    · obtain ⟨out, hout⟩ := h.table.exists_outputOn_eq_ok i
      refine ⟨out, hout, ?_⟩
      -- the edit is kept: cases up to the current one are at their best, later ones have none
      by_cases hi : i ≤ s.current
      · have hscore := h.scoreOn_eq hs hopen hv hi
        rw [scoreOn, hout] at hscore
        exact Nat.le_of_eq (Except.ok.inj hscore).symm
      · have hunseen := h.table.unseen i (by rw [h.current]; exact Nat.not_le.mp hi)
        rw [hunseen]
        exact Nat.zero_le _
  · have hnone := isFinished_iff.mp hdone
    rw [h.curriculum, h.current] at hnone
    exact absurd hopen (Nat.not_lt.mpr hnone)

/-- Solving a case changes no output. -/
theorem passes_advance (s : Search σ ρ) (i : Nat) : s.advance.1.Passes i ↔ s.Passes i := by
  rw [advance_fst]
  simp only [Passes, outputOn, program, case]

/-- When the current case is solved and the next one becomes current, what is known still holds. -/
theorem inv_advance {s t : Search NoHost ρ} (h : Attempted s t (.tied true)) (hs : Inv s)
    (hopen : s.current < s.curriculum.size) : Inv t.advance.1 := by
  have ht := inv_of_attempted h hs hopen
  have hlt : t.current < t.curriculum.size := by
    rw [h.current, h.curriculum]
    exact hopen
  have hfull : t.bestScore t.current = (t.case t.current).expected.size := by
    rw [bestScore, h.best, h.current, case, h.curriculum]
    exact bestScore_of_solved (h.judged (by simp))
  have htable := tableInv_advance ht.toTableInv hlt hfull
  refine { htable with memory := ?_, held := ?_, passed := fun hdone i hi => ?_ }
  · rw [advance_fst]
    exact ht.memory
  · rw [advance_fst]
    exact ht.held
  · rw [isFinished_iff, advance_fst] at hdone
    rw [advance_fst] at hi
    rw [passes_advance]
    refine h.passes (Nat.lt_succ_iff.mp ?_)
    rw [← h.current]
    exact Nat.lt_of_lt_of_le hi hdone

/-! ## Calls -/

variable [Generator ρ]

/-- What is known holds after every call, and when a call reports a solved case, this case and all
before it pass. -/
theorem inv_step {s : Search NoHost ρ} (hs : Inv s) (budget : Nat) :
    Inv (s.step budget).1 ∧ ∀ d, (s.step budget).2.1 = .ok (.caseSolved d) →
      d < (s.step budget).1.curriculum.size ∧ ∀ i ≤ d, (s.step budget).1.Passes i := by
  unfold step
  by_cases hdone : s.isFinished = true
  · rw [if_pos hdone]
    exact ⟨hs, by simp⟩
  · rw [if_neg hdone]
    have hopen : s.current < s.curriculum.size :=
      Nat.not_le.mp fun hle => hdone (isFinished_iff.mpr hle)
    refine attempts_rule (I := fun s => Inv s ∧ s.current < s.curriculum.size)
      (Q := fun t r => Inv t ∧ ∀ d, r = .ok (.caseSolved d) →
        d < t.curriculum.size ∧ ∀ i ≤ d, t.Passes i) ?_ ?_ ?_ ?_ budget s #[] ⟨hs, hopen⟩
    · rintro s ⟨hs, -⟩
      exact ⟨hs, by simp⟩
    · rintro s t e ⟨hs, -⟩ h
      exact absurd h hs.attempt_ne_error
    · rintro s t v ⟨hs, hopen⟩ h -
      have hattempted := attempted_of_attempt_eq hs hopen h
      refine ⟨inv_of_attempted hattempted hs hopen, ?_⟩
      rw [hattempted.current, hattempted.curriculum]
      exact hopen
    · rintro s t ⟨hs, hopen⟩ h
      have hattempted := attempted_of_attempt_eq hs hopen h
      refine ⟨inv_advance hattempted hs hopen, fun d hd => ?_⟩
      have houtcome := Except.ok.inj hd
      rw [outcome_advance] at houtcome
      split at houtcome
      · simp at houtcome
      · rename_i hopen'
        obtain rfl := Outcome.caseSolved.inj houtcome
        refine ⟨?_, fun i hi => ?_⟩
        · rw [advance_fst]
          exact Nat.lt_of_succ_lt (Nat.not_le.mp hopen')
        · rw [passes_advance]
          rw [hattempted.current] at hi
          exact hattempted.passes hi

/-- What is known holds in every reachable state. -/
theorem Reachable.inv {s : Search NoHost ρ} (h : Reachable s) : Inv s := by
  induction h with
  | ofParts curriculum settings program host generator valid =>
      exact inv_ofParts curriculum settings generator valid
  | step _ budget ih => exact (inv_step ih budget).1

/-! ## A search whose solved case is tied

The first edit of the search changes nothing that is put out, and the best score of the first case
becomes known. The second does not either, and the case is solved. The third puts a word between the
expected ones. -/

/-- A search for `1, 3` and then `9`, with a generator that replays the draws of three edits:
whether to grow, which slot to write, the instruction and its register. -/
def solving : Search NoHost Replay :=
  (ofParts #[⟨#[], #[1, 3]⟩, ⟨#[], #[9]⟩] { memorySize := 4 }
    ⟨#[0, 1, 0, 0, 14, 0, 0, 0, 2, 2, 0, 0, 0, 3, 1, 0, 14, 1, 0, 0] ++ Array.replicate 44 0, 20⟩
    NoHost.mk (Replay.ofScript [
      922337203685477581, 7378697629483820647, 1272189246462727698, 1073741824,
      922337203685477581, 7378697629483820647, 1908283869694091547, 1610612736,
      922337203685477581, 7378697629483820647, 8905324725239093884, 1073741824])).1

/-- The search behind its first edit. -/
def solvingImproved : Search NoHost Replay := (solving.step 1).1

/-- The search behind its second edit. -/
def solvingSolved : Search NoHost Replay := (solvingImproved.step 1).1

/-- The search behind its third edit. -/
def solvingTied : Search NoHost Replay := (solvingSolved.step 1).1

theorem reachable_solving : Reachable solving := .ofParts _ _ _ _ _ (by cbv)

theorem reachable_solvingImproved : Reachable solvingImproved := reachable_solving.step 1

theorem reachable_solvingTied : Reachable solvingTied :=
  (reachable_solvingImproved.step 1).step 1

theorem solvingImproved_eq : solvingImproved = solving.attempt.1 :=
  step_one_of_kept (v := .improved 0 2) (by cbv) (by cbv) (by simp)

theorem step_solvingImproved : solvingSolved = solvingImproved.attempt.1.advance.1 ∧
    (solvingImproved.step 1).2.1 = .ok solvingImproved.attempt.1.advance.2.1 := by
  refine step_one_of_solved ?_ ?_
  · rw [solvingImproved_eq]
    cbv
  · rw [solvingImproved_eq]
    cbv

theorem solvingSolved_eq : solvingSolved = { solving.attempt.1.attempt.1 with current := 1 } := by
  rw [step_solvingImproved.1, advance_fst, solvingImproved_eq]
  cbv

theorem solvingTied_eq : solvingTied = solvingSolved.attempt.1 := by
  refine step_one_of_kept (v := .tied false) ?_ ?_ (by simp)
  · rw [solvingSolved_eq]
    cbv
  · rw [solvingSolved_eq]
    cbv

theorem current_solvingTied : solvingTied.current = 1 := by
  rw [solvingTied_eq, solvingSolved_eq]
  cbv

theorem curriculum_solvingTied : solvingTied.curriculum = #[⟨#[], #[1, 3]⟩, ⟨#[], #[9]⟩] := by
  rw [solvingTied_eq, solvingSolved_eq]
  cbv

theorem case_solvingTied : solvingTied.case 0 = ⟨#[], #[1, 3]⟩ := by
  rw [case, curriculum_solvingTied]
  rfl

theorem outputOn_solvingTied : solvingTied.outputOn 0 = .ok #[1, 0, 3] := by
  rw [solvingTied_eq, solvingSolved_eq]
  cbv

/-! ## What a search promises -/

/-- **Solved means passed**: when a call reports that a case is solved, the program passes this case
and all before it on a fresh machine; and whenever no case is left, it passes all of them. -/
theorem passes_of_reachable {s : Search NoHost ρ} (h : Reachable s) :
    (∀ budget d, (s.step budget).2.1 = .ok (.caseSolved d) →
      d < (s.step budget).1.curriculum.size ∧ ∀ i ≤ d, (s.step budget).1.Passes i) ∧
      (s.isFinished = true → ∀ i < s.curriculum.size, s.Passes i) :=
  ⟨fun budget => (inv_step h.inv budget).2, h.inv.passed⟩

theorem passes_solvingSolved : Reachable solvingImproved ∧
    (solvingImproved.step 1).2.1 = .ok (.caseSolved 0) ∧ solvingSolved.Passes 0 := by
  have hsolved : (solvingImproved.step 1).2.1 = .ok (.caseSolved 0) := by
    rw [step_solvingImproved.2, outcome_advance, solvingImproved_eq]
    cbv
  refine ⟨reachable_solvingImproved, hsolved, ?_⟩
  exact ((passes_of_reachable reachable_solvingImproved).1 1 0 hsolved).2 0 (Nat.le_refl 0)

/-- **Scores are kept**: the program never scores below the best score of a case, and has the
greatest score on the solved ones. An attempt whose edit is kept leaves every case up to the
current one exactly at its best score, which is not below the one before. -/
theorem scoreOn_of_reachable {s : Search NoHost ρ} (h : Reachable s) :
    (∀ i < s.curriculum.size, ∃ score, s.scoreOn i = .ok score ∧ s.bestScore i ≤ score ∧
      (i < s.current → score = s.bestScore i ∧ s.bestScore i = (s.case i).expected.size)) ∧
      ∀ t v, s.isFinished = false → s.attempt = (t, .ok v) → v ≠ .rejected →
        ∀ i ≤ s.current, t.scoreOn i = .ok (t.bestScore i) ∧ s.bestScore i ≤ t.bestScore i := by
  have hs := h.inv
  constructor
  · intro i _
    obtain ⟨out, hout, hle⟩ := hs.held i
    refine ⟨Score.lcs out (s.case i).expected, by rw [scoreOn, hout]; rfl, hle, fun hi => ?_⟩
    have hfull := hs.full i hi
    have hbound := Score.lcs_le out (s.case i).expected
    omega
  · intro t v hopen hattempt hkept i hi
    have hlt : s.current < s.curriculum.size := by
      refine Nat.not_le.mp fun hle => ?_
      rw [isFinished_iff.mpr hle] at hopen
      simp at hopen
    have hattempted := attempted_of_attempt_eq hs hlt hattempt
    exact ⟨hattempted.scoreOn_eq hs hlt hkept hi, hattempted.bestScore_le hs hlt i⟩

theorem scoreOn_solvingTied :
    Reachable solvingTied ∧ 0 < solvingTied.current ∧ solvingTied.scoreOn 0 = .ok 2 := by
  have hcurrent : 0 < solvingTied.current := by rw [current_solvingTied]; decide
  have hsize : 0 < solvingTied.curriculum.size := by rw [curriculum_solvingTied]; decide
  refine ⟨reachable_solvingTied, hcurrent, ?_⟩
  obtain ⟨score, hscore, -, hfull⟩ := (scoreOn_of_reachable reachable_solvingTied).1 0 hsize
  obtain ⟨hbest, hgreatest⟩ := hfull hcurrent
  rw [hscore, hbest, hgreatest, case_solvingTied]
  rfl

/-- **Solved cases keep their words**: the output on a solved case holds the expected words in
order. They stand in one run if there is at most one of them or if nothing else is put out; on all
cases up to the solved one at the end of a call that reports it; and on every case when none is
left. -/
theorem sublist_of_reachable {s : Search NoHost ρ} (h : Reachable s) :
    (∀ i < s.current, ∃ out, s.outputOn i = .ok out ∧
      (s.case i).expected.toList.Sublist out.toList ∧
        ((s.case i).expected.size ≤ 1 ∨ out.size ≤ (s.case i).expected.size →
          (s.case i).expected.toList <:+: out.toList)) ∧
      (∀ budget d, (s.step budget).2.1 = .ok (.caseSolved d) →
        ∀ i ≤ d, (s.step budget).1.Passes i) ∧
      (s.isFinished = true → ∀ i < s.curriculum.size, s.Passes i) := by
  have hs := h.inv
  refine ⟨fun i hi => ?_, fun budget d hd => ((inv_step hs budget).2 d hd).2, hs.passed⟩
  obtain ⟨out, hout, hle⟩ := hs.held i
  have hfull := hs.full i hi
  have hbound := Score.lcs_le out (s.case i).expected
  -- the best score of a solved case is the greatest there is, and the output is not below it
  have hsub := Score.lcs_eq_size_iff.mp (Nat.le_antisymm hbound (hfull ▸ hle))
  refine ⟨out, hout, hsub, ?_⟩
  rintro (hone | hshort)
  · exact Score.infix_of_sublist_of_length_le_one hone hsub
  · have hsame := hsub.eq_of_length_le hshort
    exact ⟨[], [], by rw [List.nil_append, List.append_nil, hsame]⟩

theorem sublist_solvingTied : Reachable solvingTied ∧ ∃ out, solvingTied.outputOn 0 = .ok out ∧
    (solvingTied.case 0).expected.toList.Sublist out.toList := by
  refine ⟨reachable_solvingTied, ?_⟩
  obtain ⟨out, hout, hsub, -⟩ := (sublist_of_reachable reachable_solvingTied).1 0
    (by rw [current_solvingTied]; decide)
  exact ⟨out, hout, hsub⟩

/-- More than one word need not stay in one run: an edit that ties may put a word between them, and
the solved case does not pass any more. -/
theorem not_passes_solvingTied :
    Reachable solvingTied ∧ 0 < solvingTied.current ∧ ¬ solvingTied.Passes 0 := by
  refine ⟨reachable_solvingTied, by rw [current_solvingTied]; decide, ?_⟩
  rintro ⟨out, hout, hrun⟩
  rw [outputOn_solvingTied] at hout
  cases hout
  rw [case_solvingTied] at hrun
  exact absurd (Score.contains_iff_infix.mpr hrun) (by decide)

end BytecodeSearch.Search
