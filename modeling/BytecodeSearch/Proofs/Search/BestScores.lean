import BytecodeSearch.Proofs.Score.Subsequence
import BytecodeSearch.Proofs.Search.Attempts

/-!
# Best scores

`TableInv` is what holds of the program and the best scores of a search with any host: a solved case
has the greatest score, a case that is still to come has none. Since no solved case can become
better, only the current one does (`eq_current_of_improved`), and this is why scoring may stop
there.
-/

set_option autoImplicit false

namespace BytecodeSearch.Search

variable {σ ρ : Type}

/-- The program is valid and the best scores are those of a search that has solved the cases before
the current one. -/
structure TableInv (s : Search σ ρ) : Prop where
  /-- The program is valid. -/
  valid : Code.IsValid s.program.code s.program.length
  /-- Every case has a best score. -/
  size_best : s.best.size = s.curriculum.size
  /-- The current case is one of the cases, or there is none. -/
  current_le : s.current ≤ s.curriculum.size
  /-- No best score is above the number of expected words. -/
  best_le : ∀ i, s.bestScore i ≤ (s.case i).expected.size
  /-- The solved cases have the greatest score. -/
  full : ∀ i < s.current, s.bestScore i = (s.case i).expected.size
  /-- The cases behind the current one have not been scored. -/
  unseen : ∀ i, s.current < i → s.bestScore i = 0

theorem bestScore_ofParts (curriculum : Array Case) (settings : Settings) (program : Program)
    (host : σ) (generator : ρ) (i : Nat) :
    (ofParts curriculum settings program host generator).1.bestScore i = 0 := by
  simp only [ofParts, bestScore, Array.getD_eq_getD_getElem?, Array.getElem?_replicate]
  by_cases hi : i < curriculum.size
  · rw [if_pos hi]
    rfl
  · rw [if_neg hi]
    rfl

theorem tableInv_ofParts (curriculum : Array Case) (settings : Settings) {program : Program}
    (host : σ) (generator : ρ) (hvalid : program.validate = .ok ()) :
    TableInv (ofParts curriculum settings program host generator).1 := by
  refine ⟨Code.validate_eq_ok_iff.mp hvalid, Array.size_replicate, Nat.zero_le _, ?_, ?_, ?_⟩
  · intro i
    rw [bestScore_ofParts]
    exact Nat.zero_le _
  · exact fun i hi => absurd hi (Nat.not_lt_zero i)
  · exact fun i _ => bestScore_ofParts _ _ _ _ _ i

/-- **Only the current case becomes better**: the cases before it have their greatest score. -/
theorem TableInv.eq_current_of_improved {s : Search σ ρ} (hs : TableInv s)
    {Yields : Nat → Array Word → Prop} {k score : Nat}
    (h : Judged s.bestScore (fun i => (s.case i).expected) Yields true
      (List.range (s.current + 1)) (.improved k score)) : k = s.current := by
  obtain ⟨hk, hbetter, ⟨out, -, rfl⟩, -⟩ := h.of_improved List.pairwise_lt_range
  have hle : k ≤ s.current := Nat.lt_succ_iff.mp (List.mem_range.mp hk)
  by_contra hne
  -- an earlier case is solved, so its score cannot rise
  have hfull := hs.full k (Nat.lt_of_le_of_ne hle hne)
  have hbound := Score.lcs_le out (s.case k).expected
  omega

theorem TableInv.getD_raise {s : Search σ ρ} (hs : TableInv s)
    (hopen : s.current < s.curriculum.size) (score i : Nat) :
    ((Verdict.improved s.current score).raise s.best).getD i 0 =
      if i = s.current then score else s.bestScore i :=
  getD_setIfInBounds (by rw [hs.size_best]; exact hopen) i score 0

/-- The invariant looks at the curriculum, the current case, the best scores and the program. -/
theorem TableInv.congr {s t : Search σ ρ} (hs : TableInv s)
    (hvalid : Code.IsValid t.program.code t.program.length)
    (hcurriculum : t.curriculum = s.curriculum)
    (hcurrent : t.current = s.current) (hbest : t.best = s.best) : TableInv t := by
  have hcase : t.case = s.case := by
    unfold case
    rw [hcurriculum]
  have hscore : t.bestScore = s.bestScore := by
    unfold bestScore
    rw [hbest]
  constructor
  · exact hvalid
  · rw [hbest, hcurriculum]
    exact hs.size_best
  · rw [hcurrent, hcurriculum]
    exact hs.current_le
  · rw [hscore, hcase]
    exact hs.best_le
  · rw [hscore, hcase, hcurrent]
    exact hs.full
  · rw [hscore, hcurrent]
    exact hs.unseen

/-! ## Verdicts -/

/-- Every attempt applies a legal edit, judges it and settles it, whatever the host does. -/
theorem TableInv.exists_attempt_settled [Sensors σ] [Generator ρ] {s : Search σ ρ}
    (hs : TableInv s) :
    ∃ edit g m v, edit.IsLegal s.program.length (Edit.clampRegisters s.settings.registers) ∧
      Judged s.bestScore (fun i => (s.case i).expected) (fun _ _ => True) true
        (List.range (s.current + 1)) v ∧
      s.attempt = (s.settled edit g m v, .ok v) := by
  have hrun : ∀ p : Program, Code.IsValid p.code p.length → ∀ i (m : Machine σ), True →
      ∃ m', runCase p (s.case i) m = (m', .ok (Score.lcs m'.output (s.case i).expected)) ∧
        True ∧ True := by
    intro p hp i m _
    obtain ⟨m', hcase, -⟩ := exists_runCase_eq hp (s.case i) m
    exact ⟨m', hcase, trivial, trivial⟩
  obtain ⟨edit, g, m, v, hlegal, -, hjudged, heq⟩ := exists_attempt_eq (I := fun _ => True)
    (fun _ _ _ => True) hs.valid hrun trivial
  exact ⟨edit, g, m, v, hlegal, hjudged, heq⟩

/-- From a valid program no attempt fails. -/
theorem TableInv.attempt_ne_error [Sensors σ] [Generator ρ] {s t : Search σ ρ} {e : RunError}
    (hs : TableInv s) : s.attempt ≠ (t, .error e) := by
  intro h
  obtain ⟨edit, g, m, v, -, -, hok⟩ := hs.exists_attempt_settled
  rw [hok] at h
  cases h

/-- No verdict lowers a best score. -/
theorem TableInv.le_raise {s : Search σ ρ} {Yields : Nat → Array Word → Prop} {v : Verdict}
    (hs : TableInv s) (hopen : s.current < s.curriculum.size)
    (hjudged : Judged s.bestScore (fun i => (s.case i).expected) Yields true
      (List.range (s.current + 1)) v) (i : Nat) :
    s.bestScore i ≤ (v.raise s.best).getD i 0 := by
  cases v with
  | rejected => exact Nat.le_refl _
  | tied _ => exact Nat.le_refl _
  | improved k score =>
      obtain rfl := hs.eq_current_of_improved hjudged
      obtain ⟨-, hbetter, -⟩ := hjudged.of_improved List.pairwise_lt_range
      rw [hs.getD_raise hopen]
      by_cases hi : i = s.current
      · rw [if_pos hi, hi]
        exact Nat.le_of_lt hbetter
      · exact Nat.le_of_eq (if_neg hi).symm

/-- A verdict changes the best score of the current case at most. -/
theorem TableInv.raise_of_ne {s : Search σ ρ} {Yields : Nat → Array Word → Prop} {v : Verdict}
    (hs : TableInv s) (hopen : s.current < s.curriculum.size)
    (hjudged : Judged s.bestScore (fun i => (s.case i).expected) Yields true
      (List.range (s.current + 1)) v) {i : Nat} (hi : i ≠ s.current) :
    (v.raise s.best).getD i 0 = s.bestScore i := by
  cases v with
  | rejected => rfl
  | tied _ => rfl
  | improved k score =>
      obtain rfl := hs.eq_current_of_improved hjudged
      rw [hs.getD_raise hopen, if_neg hi]

/-- The best scores behind any verdict are in order. -/
theorem tableInv_settled {s : Search σ ρ} {Yields : Nat → Array Word → Prop} {edit : Edit}
    {registers : Nat} {v : Verdict} (hs : TableInv s) (hopen : s.current < s.curriculum.size)
    (hedit : edit.IsLegal s.program.length registers) (hregisters : registers ≤ registerCount)
    (hjudged : Judged s.bestScore (fun i => (s.case i).expected) Yields true
      (List.range (s.current + 1)) v) (g : ρ) (m : Machine σ) :
    TableInv (s.settled edit g m v) := by
  have hvalid := isValid_settled hs.valid hedit hregisters g m v
  have hcurriculum := settled_curriculum s edit g m v
  have hcurrent := settled_current s edit g m v
  have hraised := settled_best s edit g m v
  cases v with
  | rejected => exact hs.congr hvalid hcurriculum hcurrent hraised
  | tied _ => exact hs.congr hvalid hcurriculum hcurrent hraised
  | improved k score =>
      obtain rfl := hs.eq_current_of_improved hjudged
      obtain ⟨-, -, ⟨out, -, hscore⟩, -⟩ := hjudged.of_improved List.pairwise_lt_range
      have hcase : (s.settled edit g m (.improved s.current score)).case = s.case := by
        unfold case
        rw [hcurriculum]
      have hbest : ∀ i, (s.settled edit g m (.improved s.current score)).bestScore i =
          if i = s.current then score else s.bestScore i := by
        intro i
        unfold bestScore
        rw [hraised]
        exact hs.getD_raise hopen score i
      refine ⟨hvalid, ?_, ?_, fun i => ?_, fun i hi => ?_, fun i hi => ?_⟩
      · rw [hraised, hcurriculum, ← hs.size_best]
        exact Array.size_setIfInBounds
      · rw [hcurrent, hcurriculum]
        exact hs.current_le
      · rw [hbest, hcase]
        by_cases hi : i = s.current
        · rw [if_pos hi, hi, hscore]
          exact Score.lcs_le _ _
        · rw [if_neg hi]
          exact hs.best_le i
      · rw [hcurrent] at hi
        rw [hbest, hcase, if_neg (Nat.ne_of_lt hi)]
        exact hs.full i hi
      · rw [hcurrent] at hi
        rw [hbest, if_neg (Nat.ne_of_gt hi)]
        exact hs.unseen i hi

/-- An edit that is kept has scores equal to the best ones of its time on every case up to the
current one, also when scoring has stopped at a case that has become better. -/
theorem TableInv.score_of_kept {s : Search σ ρ} {Yields : Nat → Array Word → Prop} {v : Verdict}
    (hs : TableInv s) (hopen : s.current < s.curriculum.size)
    (hjudged : Judged s.bestScore (fun i => (s.case i).expected) Yields true
      (List.range (s.current + 1)) v) (hkept : v ≠ .rejected) {i : Nat} (hi : i ≤ s.current) :
    ∃ out, Yields i out ∧ Score.lcs out (s.case i).expected = (v.raise s.best).getD i 0 := by
  have hmem : i ∈ List.range (s.current + 1) := List.mem_range.mpr (Nat.lt_succ_iff.mpr hi)
  cases v with
  | rejected => exact absurd rfl hkept
  | tied all =>
      obtain ⟨out, hyields, hsame, -⟩ := hjudged.of_tied.2 i hmem
      exact ⟨out, hyields, hsame⟩
  | improved k score =>
      -- scoring has stopped at the current case, so no case up to it is left out
      obtain rfl := hs.eq_current_of_improved hjudged
      obtain ⟨-, -, ⟨out, hyields, hscore⟩, hbefore⟩ := hjudged.of_improved List.pairwise_lt_range
      rw [hs.getD_raise hopen]
      by_cases hlast : i = s.current
      · rw [if_pos hlast, hlast]
        exact ⟨out, hyields, hscore.symm⟩
      · rw [if_neg hlast]
        exact hbefore i hmem (Nat.lt_of_le_of_ne hi hlast)

/-- The current case has its greatest score when it is solved. -/
theorem bestScore_of_solved {s : Search σ ρ} {Yields : Nat → Array Word → Prop}
    (hjudged : Judged s.bestScore (fun i => (s.case i).expected) Yields true
      (List.range (s.current + 1)) (.tied true)) :
    s.bestScore s.current = (s.case s.current).expected.size := by
  obtain ⟨out, -, hsame, hcontains⟩ := hjudged.of_tied.2 s.current (List.self_mem_range_succ)
  rw [← hsame]
  exact Score.lcs_of_infix (Score.contains_iff_infix.mp (hcontains rfl))

/-- A case that is solved: the next one becomes current. -/
theorem advance_fst (s : Search σ ρ) : s.advance.1 = { s with current := s.current + 1 } := by
  simp only [advance]
  split
  · rfl
  · rfl

theorem outcome_advance (s : Search σ ρ) : s.advance.2.1 =
    if s.curriculum.size ≤ s.current + 1 then .allSolved else .caseSolved s.current := by
  simp only [advance]
  split
  · rename_i hdone
    rw [if_pos (of_decide_eq_true hdone)]
  · rename_i hopen
    rw [if_neg fun hle => hopen (decide_eq_true hle)]

theorem tableInv_advance {s : Search σ ρ} (hs : TableInv s) (hopen : s.current < s.curriculum.size)
    (hfull : s.bestScore s.current = (s.case s.current).expected.size) :
    TableInv s.advance.1 := by
  rw [advance_fst]
  refine ⟨hs.valid, hs.size_best, hopen, hs.best_le, fun i hi => ?_, fun i hi => ?_⟩
  · rcases Nat.lt_succ_iff_lt_or_eq.mp hi with hlt | rfl
    · exact hs.full i hlt
    · exact hfull
  · exact hs.unseen i (Nat.lt_of_succ_lt hi)

end BytecodeSearch.Search
