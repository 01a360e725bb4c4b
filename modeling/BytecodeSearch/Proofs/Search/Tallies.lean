import BytecodeSearch.Proofs.Program.Representation
import BytecodeSearch.Proofs.Search.Chunks

/-!
# Tallies

The counts of a search agree with each other and with its best scores, whatever the host does
between two runs of a program. Every edit is kept or undone, and one that is kept because a case has
become better has raised the sum of the best scores, which is the sum of the expected lengths at most.
`Tallied` adds this to what holds of the best scores, and holds of every reachable search
(`Reachable.tallied`).
-/

set_option autoImplicit false

namespace BytecodeSearch

/-! ## The words of an undone edit -/

/-- A program whose edit is undone has the words it had, in a buffer that may have grown. -/
theorem Editor.words_rollback_apply_of_isValid {e : Editor} {edit : Edit}
    (he : Code.IsValid e.program.code e.program.length) (hpos : edit.pos % slotWidth = 0) :
    (e.apply edit).rollback.1.program.words = e.program.words := by
  have hundone := isValid_rollback_apply he hpos
  have hlength := length_rollback_apply e edit
  refine ext_getD ?_ fun i => ?_
  · rw [Program.size_words hundone.isLength.2, Program.size_words he.isLength.2, hlength]
  · rw [Program.getD_words, Program.getD_words, hlength]
    by_cases hi : i < e.program.length
    · rw [if_pos hi, if_pos hi]
      exact Program.getD_eq_of_slots (fun _ hlt hq => read_rollback_apply_of_lt he hpos hlt hq) hi
    · rw [if_neg hi, if_neg hi]

namespace Search

variable {σ ρ : Type}

/-! ## Counts -/

/-- The sum of the best scores. -/
def bestSum (s : Search σ ρ) : Nat := ∑ i ∈ Finset.range s.curriculum.size, s.bestScore i

/-- The counts agree with each other and with the best scores. -/
structure Tallied (s : Search σ ρ) : Prop extends TableInv s where
  /-- Every edit is kept or undone. -/
  attempts_eq : s.tally.accepted + s.tally.rejected = s.tally.attempts
  /-- An edit that has raised a best score is kept. -/
  improvements_le : s.tally.improvements ≤ s.tally.accepted
  /-- It has raised their sum. -/
  improvements_le_sum : s.tally.improvements ≤ s.bestSum

theorem bestSum_le {s : Search σ ρ} (hs : TableInv s) :
    s.bestSum ≤ ∑ i ∈ Finset.range s.curriculum.size, (s.case i).expected.size :=
  Finset.sum_le_sum fun i _ => hs.best_le i

theorem tallied_ofParts (curriculum : Array Case) (settings : Settings) {program : Program}
    (host : σ) (generator : ρ) (hvalid : program.validate = .ok ()) :
    Tallied (ofParts curriculum settings program host generator).1 :=
  { tableInv_ofParts curriculum settings host generator hvalid with
    attempts_eq := rfl
    improvements_le := Nat.le_refl 0
    improvements_le_sum := Nat.zero_le _ }

section

variable {s : Search σ ρ} {Yields : Nat → Array Word → Prop} {edit : Edit} {registers : Nat}
  {v : Verdict}

theorem bestScore_settled (s : Search σ ρ) (edit : Edit) (g : ρ) (m : Machine σ) (v : Verdict)
    (i : Nat) : (s.settled edit g m v).bestScore i = (v.raise s.best).getD i 0 := by
  rw [bestScore, settled_best]

theorem bestSum_le_settled (hs : TableInv s) (hopen : s.current < s.curriculum.size)
    (hjudged : Judged s.bestScore (fun i => (s.case i).expected) Yields true
      (List.range (s.current + 1)) v) (edit : Edit) (g : ρ) (m : Machine σ) :
    s.bestSum ≤ (s.settled edit g m v).bestSum := by
  unfold bestSum
  rw [settled_curriculum]
  refine Finset.sum_le_sum fun i _ => ?_
  rw [bestScore_settled]
  exact hs.le_raise hopen hjudged i

theorem bestSum_lt_settled {k score : Nat} (hs : TableInv s)
    (hopen : s.current < s.curriculum.size)
    (hjudged : Judged s.bestScore (fun i => (s.case i).expected) Yields true
      (List.range (s.current + 1)) (.improved k score)) (edit : Edit) (g : ρ) (m : Machine σ) :
    s.bestSum < (s.settled edit g m (.improved k score)).bestSum := by
  obtain rfl := hs.eq_current_of_improved hjudged
  obtain ⟨-, hbetter, -⟩ := hjudged.of_improved List.pairwise_lt_range
  unfold bestSum
  rw [settled_curriculum]
  refine Finset.sum_lt_sum (fun i _ => ?_) ⟨s.current, Finset.mem_range.mpr hopen, ?_⟩
  · rw [bestScore_settled]
    exact hs.le_raise hopen hjudged i
  · rw [bestScore_settled, hs.getD_raise hopen, if_pos rfl]
    exact hbetter

theorem tallied_settled (hs : Tallied s) (hopen : s.current < s.curriculum.size)
    (hedit : edit.IsLegal s.program.length registers) (hregisters : registers ≤ registerCount)
    (hjudged : Judged s.bestScore (fun i => (s.case i).expected) Yields true
      (List.range (s.current + 1)) v) (g : ρ) (m : Machine σ) :
    Tallied (s.settled edit g m v) := by
  have htable := tableInv_settled hs.toTableInv hopen hedit hregisters hjudged g m
  have hattempts := hs.attempts_eq
  have himprovements := hs.improvements_le
  have hsum := hs.improvements_le_sum
  cases v with
  | rejected =>
      have hkept := bestSum_le_settled hs.toTableInv hopen hjudged edit g m
      refine { htable with attempts_eq := ?_, improvements_le := ?_, improvements_le_sum := ?_ }
      · show s.tally.accepted + (s.tally.rejected + 1) = s.tally.attempts + 1
        omega
      · exact himprovements
      · exact Nat.le_trans hsum hkept
  | tied all =>
      have hkept := bestSum_le_settled hs.toTableInv hopen hjudged edit g m
      refine { htable with attempts_eq := ?_, improvements_le := ?_, improvements_le_sum := ?_ }
      · show s.tally.accepted + 1 + s.tally.rejected = s.tally.attempts + 1
        omega
      · show s.tally.improvements ≤ s.tally.accepted + 1
        omega
      · exact Nat.le_trans hsum hkept
  | improved k score =>
      have hraised := bestSum_lt_settled hs.toTableInv hopen hjudged edit g m
      refine { htable with attempts_eq := ?_, improvements_le := ?_, improvements_le_sum := ?_ }
      · show s.tally.accepted + 1 + s.tally.rejected = s.tally.attempts + 1
        omega
      · show s.tally.improvements + 1 ≤ s.tally.accepted + 1
        omega
      · exact Nat.succ_le_of_lt (Nat.lt_of_le_of_lt hsum hraised)

theorem tallied_advance (hs : Tallied s) (hopen : s.current < s.curriculum.size)
    (hfull : s.bestScore s.current = (s.case s.current).expected.size) :
    Tallied s.advance.1 := by
  have htable := tableInv_advance hs.toTableInv hopen hfull
  -- of the counts and the best scores nothing changes
  refine { htable with attempts_eq := ?_, improvements_le := ?_, improvements_le_sum := ?_ }
  · rw [advance_fst]
    exact hs.attempts_eq
  · rw [advance_fst]
    exact hs.improvements_le
  · rw [advance_fst]
    exact hs.improvements_le_sum

end

/-! ## Reachable searches -/

section

variable [Sensors σ] [Generator ρ] {s t : Search σ ρ} {v : Verdict}

theorem TableInv.settled_of_attempt_eq (hs : TableInv s) (h : s.attempt = (t, .ok v)) :
    ∃ edit g m, edit.IsLegal s.program.length (Edit.clampRegisters s.settings.registers) ∧
      Judged s.bestScore (fun i => (s.case i).expected) (fun _ _ => True) true
        (List.range (s.current + 1)) v ∧
      t = s.settled edit g m v := by
  obtain ⟨edit, g, m, v', hlegal, hjudged, heq⟩ := hs.exists_attempt_settled
  rw [h] at heq
  cases heq
  exact ⟨edit, g, m, hlegal, hjudged, rfl⟩

theorem tallied_attempt (hs : Tallied s) (hopen : s.current < s.curriculum.size)
    (h : s.attempt = (t, .ok v)) : Tallied t ∧ t.current < t.curriculum.size := by
  obtain ⟨edit, g, m, hlegal, hjudged, rfl⟩ := hs.settled_of_attempt_eq h
  refine ⟨tallied_settled hs hopen hlegal (Edit.clampRegisters_le _) hjudged g m, ?_⟩
  rw [settled_current, settled_curriculum]
  exact hopen

theorem tallied_step (hs : Tallied s) (budget : Nat) : Tallied (s.step budget).1 := by
  by_cases hdone : s.isFinished = true
  · rw [step_of_finished hdone]
    exact hs
  · have hunfinished : s.isFinished = false := by simpa using hdone
    rw [step_of_open hunfinished]
    refine attempts_rule (I := fun s => Tallied s ∧ s.current < s.curriculum.size)
      (Q := fun t _ => Tallied t) ?_ ?_ ?_ ?_ budget s #[]
      ⟨hs, isFinished_eq_false_iff.mp hunfinished⟩
    · rintro s ⟨hs, -⟩
      exact hs
    · rintro s t e ⟨hs, -⟩ h
      exact absurd h hs.attempt_ne_error
    · rintro s t v ⟨hs, hopen⟩ h -
      exact tallied_attempt hs hopen h
    · rintro s t ⟨hs, hopen⟩ h
      obtain ⟨ht, hopen'⟩ := tallied_attempt hs hopen h
      obtain ⟨edit, g, m, -, hjudged, rfl⟩ := hs.settled_of_attempt_eq h
      refine tallied_advance ht hopen' ?_
      have hfull := bestScore_of_solved hjudged
      rw [bestScore_settled, settled_current, case, settled_curriculum]
      exact hfull

/-- The counts and the best scores are in order in every reachable state, with any host. -/
theorem Reachable.tallied (h : Reachable s) : Tallied s := by
  induction h with
  | ofParts curriculum settings program host generator valid =>
      exact tallied_ofParts curriculum settings host generator valid
  | step _ budget ih => exact tallied_step ih budget

/-- **The books balance.** In every reachable state, with any host and generator, each best score is
at most the number of expected words, equals it for the solved cases, and is zero for the cases
behind the current one. Every attempt is counted as kept or undone, and an improvement as one that is
kept; there are no more of them than the sum of the best scores, which is at most that of the
expected lengths. Every attempt of a call lowers no best score and changes one of them at most; if it
is rejected, the words of the program, the best scores and the current case are those from before. -/
theorem tally_of_reachable (h : Reachable s) :
    s.best.size = s.curriculum.size ∧
      (∀ i, s.bestScore i ≤ (s.case i).expected.size) ∧
      (∀ i < s.current, s.bestScore i = (s.case i).expected.size) ∧
      (∀ i, s.current < i → s.bestScore i = 0) ∧
      s.current ≤ s.curriculum.size ∧
      s.tally.accepted + s.tally.rejected = s.tally.attempts ∧
      s.tally.improvements ≤ s.tally.accepted ∧
      s.tally.improvements ≤ ∑ i ∈ Finset.range s.curriculum.size, s.bestScore i ∧
      ∑ i ∈ Finset.range s.curriculum.size, s.bestScore i ≤
        ∑ i ∈ Finset.range s.curriculum.size, (s.case i).expected.size ∧
      (s.isFinished = false → ∀ n u, Searches n s u → ∃ t v, u.attempt = (t, .ok v) ∧
        (∀ i, u.bestScore i ≤ t.bestScore i) ∧
        (∃ k, ∀ i, i ≠ k → t.bestScore i = u.bestScore i) ∧
        (v = .rejected → t.program.words = u.program.words ∧ t.best = u.best ∧
          t.current = u.current)) := by
  have hs := h.tallied
  refine ⟨hs.size_best, hs.best_le, hs.full, hs.unseen, hs.current_le, hs.attempts_eq,
    hs.improvements_le, hs.improvements_le_sum, bestSum_le hs.toTableInv, ?_⟩
  intro hunfinished n u hsearches
  have hu := (hsearches.reachable h hunfinished).tallied
  have hopen : u.current < u.curriculum.size :=
    isFinished_eq_false_iff.mp (hsearches.isFinished_eq.trans hunfinished)
  obtain ⟨edit, g, m, v, hlegal, hjudged, heq⟩ := hu.exists_attempt_settled
  refine ⟨_, v, heq, fun i => ?_, ⟨u.current, fun i hi => ?_⟩, ?_⟩
  · rw [bestScore_settled]
    exact hu.le_raise hopen hjudged i
  · rw [bestScore_settled]
    exact hu.raise_of_ne hopen hjudged hi
  · rintro rfl
    refine ⟨?_, settled_best u edit g m .rejected, settled_current u edit g m .rejected⟩
    rw [settled_program, if_pos rfl]
    exact Editor.words_rollback_apply_of_isValid hu.valid hlegal.aligned

/-- The search behind its fourth edit, which appends an instruction. Its fifth one is rejected. -/
def solvingGrown : Search NoHost Replay := (solvingTied.step 1).1

theorem tally_solvingGrown : Reachable solvingGrown ∧
    solvingGrown.tally = ⟨4, 4, 0, 1⟩ ∧ solvingGrown.attempt.2 = .ok .rejected ∧
    solvingGrown.attempt.1.program.words = solvingGrown.program.words ∧
    solvingGrown.tally.improvements ≤ solvingGrown.bestSum := by
  have hreachable : Reachable solvingGrown := reachable_solvingTied.step 1
  have htally : solvingGrown.tally = ⟨4, 4, 0, 1⟩ := by decide +kernel
  have hunfinished : solvingGrown.isFinished = false := by decide +kernel
  have hrejected : solvingGrown.attempt.2 = .ok .rejected := by decide +kernel
  obtain ⟨-, -, -, -, -, -, -, hsum, -, hattempt⟩ := tally_of_reachable hreachable
  obtain ⟨t, v, heq, -, -, hwords⟩ := hattempt hunfinished 0 solvingGrown (.refl solvingGrown)
  rw [heq] at hrejected
  have hundone := hwords (Except.ok.inj hrejected)
  exact ⟨hreachable, htally, by rw [heq, hrejected], by rw [heq, hundone.1], hsum⟩

end

end Search

end BytecodeSearch
