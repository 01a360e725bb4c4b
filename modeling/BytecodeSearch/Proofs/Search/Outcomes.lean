import BytecodeSearch.Proofs.Search.Tallies

/-!
# The order of outcomes

A call that does not run out of attempts reports how far the search has come. `report n k` is what
the report with number `k` of a search for `n` cases says: one case after the other, and that none is
left from the last one on. However the attempts are cut into calls, the reports of a search are the
first ones of this sequence (`outcomes_of_stepAll`), since each of them comes with the one attempt
that solves the current case (`Reachable.step_cases`), or from a search that is finished and stays as
it is.
-/

set_option autoImplicit false

namespace BytecodeSearch.Search

variable {σ ρ : Type} [Sensors σ] [Generator ρ] {s : Search σ ρ}

/-! ## One call -/

/-- A call of an unfinished search makes all its attempts and finds nothing, or ends with the first
attempt that solves the current case. -/
theorem Reachable.step_cases (h : Reachable s) (hopen : s.isFinished = false) (budget : Nat) :
    (Searches budget s (s.step budget).1 ∧ (s.step budget).2.1 = .ok .stillSearching) ∨
      ∃ n < budget, ∃ u t, Searches n s u ∧ u.attempt = (t, .ok (.tied true)) ∧
        (s.step budget).1 = t.advance.1 ∧ (s.step budget).2.1 = .ok t.advance.2.1 := by
  rw [step_of_open hopen]
  rcases attempts_cases budget s #[] with hstill | ⟨n, hn, u, hsearches, hcloses⟩
  · exact .inl hstill
  · refine .inr ⟨n, hn, u, ?_⟩
    have hu := (hsearches.reachable h hopen).tallied
    generalize (attempts budget s #[]).1 = t' at hcloses ⊢
    generalize (attempts budget s #[]).2.1 = r at hcloses ⊢
    cases hcloses with
    | failed hattempt => exact absurd hattempt hu.attempt_ne_error
    | @solved t hattempt => exact ⟨t, hsearches, hattempt, rfl, rfl⟩

/-- What the report with number `k` of a search for `n` cases says. -/
def report (n k : Nat) : Outcome := if k + 1 < n then .caseSolved k else .allSolved

theorem report_ne_stillSearching (n k : Nat) : report n k ≠ .stillSearching := by
  unfold report
  split <;> simp

theorem report_eq_allSolved_iff {n k : Nat} : report n k = .allSolved ↔ n ≤ k + 1 := by
  unfold report
  by_cases hmore : k + 1 < n
  · rw [if_pos hmore]
    simp only [reduceCtorEq, false_iff]
    omega
  · rw [if_neg hmore]
    simp only [true_iff]
    omega

omit [Sensors σ] [Generator ρ] in
theorem outcome_advance_eq_report (s : Search σ ρ) :
    s.advance.2.1 = report s.curriculum.size s.current := by
  rw [outcome_advance, report]
  by_cases hlast : s.curriculum.size ≤ s.current + 1
  · rw [if_pos hlast, if_neg (by omega)]
  · rw [if_neg hlast, if_pos (by omega)]

/-- The attempt that solves the current case moves on to the next one, and is counted. -/
theorem Searches.advance_eq {n : Nat} {u t : Search σ ρ} (h : Searches n s u)
    (hattempt : u.attempt = (t, .ok (.tied true))) :
    t.advance.1.curriculum = s.curriculum ∧ t.advance.1.current = s.current + 1 ∧
      t.advance.1.tally.attempts = s.tally.attempts + (n + 1) ∧
      t.advance.2.1 = report s.curriculum.size s.current := by
  obtain ⟨hcurriculum, hcurrent, hcount⟩ := h.frame
  have hframe := attempt_frame u
  rw [hattempt] at hframe
  obtain ⟨hcurriculum', hcurrent', hcount'⟩ := hframe
  have hcases : t.curriculum = s.curriculum := hcurriculum'.trans hcurriculum
  have hcase : t.current = s.current := hcurrent'.trans hcurrent
  rw [outcome_advance_eq_report, advance_fst, hcases, hcase]
  refine ⟨rfl, rfl, ?_, rfl⟩
  show t.tally.attempts = s.tally.attempts + (n + 1)
  rw [hcount', hcount, Nat.add_assoc]

/-- A call is still searching exactly when it has made all its attempts and solved nothing. -/
theorem Reachable.stillSearching_iff (h : Reachable s) (hopen : s.isFinished = false)
    (budget : Nat) : (s.step budget).2.1 = .ok .stillSearching ↔
      (s.step budget).1.tally.attempts = s.tally.attempts + budget ∧
        (s.step budget).1.current = s.current := by
  rcases h.step_cases hopen budget with
    ⟨hsearches, hstill⟩ | ⟨n, hn, u, t, hsearches, hsolved, ht, hr⟩
  · obtain ⟨-, hsame, hcount⟩ := hsearches.frame
    exact ⟨fun _ => ⟨hcount, hsame⟩, fun _ => hstill⟩
  · obtain ⟨-, hnext, hcount, hreport⟩ := hsearches.advance_eq hsolved
    rw [ht, hr, hreport]
    constructor
    · intro hstill
      exact absurd (Except.ok.inj hstill) (report_ne_stillSearching _ _)
    · -- the current case is another one now
      rintro ⟨-, hsame⟩
      omega

/-- Any other call ends with the attempt that solves the current case. -/
theorem Reachable.exists_solved (h : Reachable s) (hopen : s.isFinished = false) {budget : Nat}
    (hends : (s.step budget).2.1 ≠ .ok .stillSearching) :
    ∃ n < budget, ∃ t, (s.step n).2.1 = .ok .stillSearching ∧
      (s.step n).1.attempt = (t, .ok (.tied true)) ∧
        (s.step budget).1 = { t with current := s.current + 1 } ∧
        (s.step budget).1.tally.attempts = s.tally.attempts + (n + 1) ∧
        (s.step budget).2.1 = .ok (report s.curriculum.size s.current) := by
  rcases h.step_cases hopen budget with
    ⟨-, hstill⟩ | ⟨n, hn, u, t, hsearches, hsolved, ht, hr⟩
  · exact absurd hstill hends
  · obtain ⟨-, hnext, hcount, hreport⟩ := hsearches.advance_eq hsolved
    obtain ⟨hstate, hstill⟩ := hsearches.step_eq hopen
    rw [ht, hr, hreport]
    refine ⟨n, hn, t, hstill, by rw [hstate, hsolved], ?_, hcount, rfl⟩
    rw [← hnext, advance_fst]

/-- A call behind `c` reports is still searching, or gives the next report. -/
theorem Reachable.step_report (h : Reachable s) {c : Nat}
    (hc : s.current = min c s.curriculum.size) (budget : Nat) :
    (s.step budget).1.curriculum = s.curriculum ∧
      ((s.step budget).2.1 = .ok .stillSearching ∧ (s.step budget).1.current = s.current ∨
        (s.step budget).2.1 = .ok (report s.curriculum.size c) ∧
          (s.step budget).1.current = min (c + 1) s.curriculum.size) := by
  by_cases hdone : s.isFinished = true
  · -- all cases are solved, so the report says so
    have hsize := isFinished_iff.mp hdone
    rw [step_of_finished hdone, report, if_neg (by omega)]
    refine ⟨rfl, .inr ⟨rfl, ?_⟩⟩
    show s.current = min (c + 1) s.curriculum.size
    omega
  · have hopen : s.isFinished = false := by simpa using hdone
    have hlt := isFinished_eq_false_iff.mp hopen
    rcases h.step_cases hopen budget with
      ⟨hsearches, hstill⟩ | ⟨n, -, u, t, hsearches, hsolved, ht, hr⟩
    · obtain ⟨hcurriculum, hcurrent, -⟩ := hsearches.frame
      exact ⟨hcurriculum, .inl ⟨hstill, hcurrent⟩⟩
    · obtain ⟨hcurriculum, hcurrent, -, houtcome⟩ := hsearches.advance_eq hsolved
      have hsame : s.current = c := by omega
      rw [ht, hr, houtcome, hcurrent, hsame]
      refine ⟨hcurriculum, .inr ⟨rfl, ?_⟩⟩
      omega

/-! ## All calls -/

/-- The reports of a search that has given `c` of them are the next ones. -/
theorem Reachable.exists_reports (h : Reachable s) {c : Nat}
    (hc : s.current = min c s.curriculum.size) (budgets : List Nat) :
    (stepAll budgets s).1.curriculum = s.curriculum ∧
      ∃ k, (stepAll budgets s).2.filter (· ≠ .ok .stillSearching) =
          (List.range k).map (fun i => .ok (report s.curriculum.size (c + i))) ∧
        (stepAll budgets s).1.current = min (c + k) s.curriculum.size := by
  induction budgets generalizing s c with
  | nil => exact ⟨rfl, 0, rfl, hc⟩
  | cons budget rest ih =>
      obtain ⟨hcurriculum, hreport⟩ := h.step_report hc budget
      have hnext := h.step budget
      have hstate : (stepAll (budget :: rest) s).1 = (stepAll rest (s.step budget).1).1 := rfl
      have houtcomes : (stepAll (budget :: rest) s).2 =
          (s.step budget).2.1 :: (stepAll rest (s.step budget).1).2 := rfl
      rw [hstate, houtcomes]
      rcases hreport with ⟨hstill, hcurrent⟩ | ⟨hreported, hcurrent⟩
      · obtain ⟨hcases, k, hk, hlast⟩ := ih hnext (c := c) (by rw [hcurrent, hcurriculum, hc])
        rw [hcurriculum] at hcases hk hlast
        refine ⟨hcases, k, ?_, hlast⟩
        rw [hstill, List.filter_cons_of_neg (by simp), hk]
      · obtain ⟨hcases, k, hk, hlast⟩ := ih hnext (c := c + 1) (by rw [hcurrent, hcurriculum])
        rw [hcurriculum] at hcases hk hlast
        refine ⟨hcases, k + 1, ?_, ?_⟩
        · rw [hreported, List.filter_cons_of_pos (by simpa using report_ne_stillSearching _ c), hk,
            List.range_succ_eq_map, List.map_cons, List.map_map]
          refine congrArg _ (List.map_congr_left fun i _ => ?_)
          show Except.ok (report s.curriculum.size (c + 1 + i)) = .ok (report _ (c + (i + 1)))
          rw [Nat.add_assoc, Nat.add_comm 1 i]
        · rw [hlast]
          congr 1
          omega

/-- **One report for each case, in order.** The reports of a search for `n` cases, made in calls with
any budgets, are the first ones of the sequence `report n 0, report n 1, …`, and the current case is
the number of them as far as there are cases. An unfinished search is still searching behind a call
exactly when that has made all its attempts and solved nothing. Otherwise the call has made at least
one attempt and at most its budget, the last of which has solved the current case. When a call has
found that no case is left, or there is none at all, every other call finds so, and changes and
reports nothing. -/
theorem outcomes_of_stepAll {curriculum : Array Case} {settings : Settings} {program : Program}
    {host : σ} {generator : ρ} {outcomes : List (Except RunError Outcome)} {t : Search σ ρ}
    (hvalid : program.validate = .ok ()) {budgets : List Nat}
    (hcalls : stepAll budgets (ofParts curriculum settings program host generator).1 =
      (t, outcomes)) :
    (∃ k, outcomes.filter (· ≠ .ok .stillSearching) =
        (List.range k).map (fun i => .ok (report curriculum.size i)) ∧
      t.current = min k curriculum.size) ∧
      (t.isFinished = false → ∀ budget,
        ((t.step budget).2.1 = .ok .stillSearching ↔
          (t.step budget).1.tally.attempts = t.tally.attempts + budget ∧
            (t.step budget).1.current = t.current) ∧
        ((t.step budget).2.1 ≠ .ok .stillSearching → ∃ n < budget, ∃ u,
          (t.step n).2.1 = .ok .stillSearching ∧ (t.step n).1.attempt = (u, .ok (.tied true)) ∧
            (t.step budget).1 = { u with current := t.current + 1 } ∧
            (t.step budget).1.tally.attempts = t.tally.attempts + (n + 1) ∧
            (t.step budget).2.1 = .ok (report curriculum.size t.current))) ∧
      (curriculum.size = 0 ∨ .ok .allSolved ∈ outcomes →
        ∀ budget, t.step budget = (t, .ok .allSolved, #[])) := by
  have hstart := Reachable.ofParts curriculum settings program host generator hvalid
  obtain ⟨hcurriculum, k, hreports, hcurrent⟩ :=
    hstart.exists_reports (c := 0) (Nat.zero_min _).symm budgets
  have hreachable := reachable_stepAll hstart budgets
  have hsize : (ofParts curriculum settings program host generator).1.curriculum.size =
      curriculum.size := rfl
  simp only [hcalls, hsize, Nat.zero_add] at hcurriculum hreports hcurrent hreachable
  have hcases : t.curriculum = curriculum := hcurriculum
  refine ⟨⟨k, hreports, hcurrent⟩, ?_, ?_⟩
  · intro hopen budget
    refine ⟨hreachable.stillSearching_iff hopen budget, fun hends => ?_⟩
    rw [← hcases]
    exact hreachable.exists_solved hopen hends
  · intro hlast budget
    refine step_of_finished (isFinished_iff.mpr ?_) budget
    rw [hcases, hcurrent]
    rcases hlast with hnone | hmem
    · omega
    · -- the report stands at its place in the sequence, behind those of all cases
      have hkept : .ok .allSolved ∈ outcomes.filter (· ≠ .ok .stillSearching) :=
        List.mem_filter.mpr ⟨hmem, by simp⟩
      rw [hreports] at hkept
      obtain ⟨i, hi, hsays⟩ := List.mem_map.mp hkept
      have hlt := List.mem_range.mp hi
      have hend := report_eq_allSolved_iff.mp (Except.ok.inj hsays)
      omega

/-- A search for no words and then for `1, 3`, which its program puts out, with a generator that
replays the draws of one edit three times. -/
def matching : Search NoHost Replay :=
  (ofParts #[⟨#[], #[]⟩, ⟨#[], #[1, 3]⟩] { memorySize := 4 } solving.program NoHost.mk
    (Replay.ofScript (List.replicate 3 [922337203685477581, 7378697629483820647,
      1272189246462727698, 1073741824]).flatten)).1

/-- The first case is solved by the first of four attempts, the second one by the whole budget. -/
theorem outcomes_matching : (stepAll [0, 4, 1, 1, 3] matching).2 =
      [.ok .stillSearching, .ok (.caseSolved 0), .ok .stillSearching, .ok .allSolved,
        .ok .allSolved] ∧
    (stepAll [0, 4, 1, 1, 3] matching).1.tally.attempts = 3 ∧
    ∀ budget, (stepAll [0, 4, 1, 1, 3] matching).1.step budget =
      ((stepAll [0, 4, 1, 1, 3] matching).1, .ok .allSolved, #[]) := by
  have hvalid : solving.program.validate = .ok () := by decide +kernel
  have houtcomes : (stepAll [0, 4, 1, 1, 3] matching).2 =
      [.ok .stillSearching, .ok (.caseSolved 0), .ok .stillSearching, .ok .allSolved,
        .ok .allSolved] := by decide +kernel
  have hcalls : stepAll [0, 4, 1, 1, 3] matching = ((stepAll [0, 4, 1, 1, 3] matching).1,
      [.ok .stillSearching, .ok (.caseSolved 0), .ok .stillSearching, .ok .allSolved,
        .ok .allSolved]) := by rw [← houtcomes]
  obtain ⟨-, -, hlast⟩ := outcomes_of_stepAll hvalid hcalls
  exact ⟨houtcomes, by decide +kernel, hlast (.inr (by decide))⟩

end BytecodeSearch.Search
