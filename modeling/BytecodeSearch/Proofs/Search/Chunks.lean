import BytecodeSearch.Proofs.Search.Solved
import Mathlib

/-!
# Chunks of attempts

A search does not know how its attempts are cut into calls. Every attempt, with the move to the next
case if it has solved the current one, is a `turn` of the whole state, and counts one attempt; every
call is some turns (`exists_stepAll_eq_turns`). So the number of attempts says where a search is,
whatever the budgets of the calls were (`stepAll_eq_of_attempts_eq`).

`Searches n s t` is the part of a call that finds nothing: `n` attempts lead from `s` to `t`, and none
of them ends the call. A call that is still searching is such a part, any other call ends with one
more attempt behind it (`attempts_cases`).
-/

set_option autoImplicit false

namespace BytecodeSearch.Search

variable {σ ρ : Type} [Sensors σ]

/-! ## What an attempt leaves alone -/

/-- Scoring, however it ends, changes the machine and the best scores only. -/
theorem exists_scoreCases_fst_eq (cases : List Nat) (solved : Bool) (s : Search σ ρ) :
    ∃ m best, (s.scoreCases solved cases).1 = { s with machine := m, best := best } := by
  induction cases generalizing solved s with
  | nil => exact ⟨s.machine, s.best, rfl⟩
  | cons i rest ih =>
      simp only [scoreCases]
      split
      · rename_i m e _
        exact ⟨m, s.best, rfl⟩
      · rename_i m score _
        split
        · exact ⟨m, s.best, rfl⟩
        · split
          · exact ⟨m, s.best.setIfInBounds i score, rfl⟩
          · exact ih _ { s with machine := m }

section

variable [Generator ρ]

/-- Every attempt, also one that fails, stays at its case and is counted. -/
theorem attempt_frame (s : Search σ ρ) :
    s.attempt.1.curriculum = s.curriculum ∧ s.attempt.1.current = s.current ∧
      s.attempt.1.tally.attempts = s.tally.attempts + 1 := by
  have hedit : s.edit.curriculum = s.curriculum ∧ s.edit.current = s.current ∧
      s.edit.tally.attempts = s.tally.attempts + 1 := by
    unfold edit
    generalize s.editor.mutate s.settings.mutationSpeed s.settings.registers s.generator = drawn
    exact ⟨rfl, rfl, rfl⟩
  unfold attempt evaluate
  generalize s.edit = edited at hedit ⊢
  obtain ⟨m, best, hscored⟩ :=
    exists_scoreCases_fst_eq (List.range (edited.current + 1)) true edited
  split
  · rename_i t e h
    rw [h] at hscored
    have ht : t = { edited with machine := m, best := best } := hscored
    rw [ht]
    exact hedit
  · rename_i t v h
    rw [h] at hscored
    have ht : t = { edited with machine := m, best := best } := hscored
    rw [ht]
    -- settling counts the edit as kept or undone, and not as another attempt
    cases v <;> exact hedit

/-! ## Turns -/

/-- One attempt, and the move to the next case if it has solved the current one. -/
def turn (s : Search σ ρ) : Search σ ρ :=
  match s.attempt with
  | (t, .ok (.tied true)) => t.advance.1
  | (t, _) => t

theorem turn_of_solved {s t : Search σ ρ} (h : s.attempt = (t, .ok (.tied true))) :
    s.turn = t.advance.1 := by
  rw [turn, h]

theorem turn_of_kept {s t : Search σ ρ} {v : Verdict} (h : s.attempt = (t, .ok v))
    (hv : v ≠ .tied true) : s.turn = t := by
  unfold turn
  rw [h]
  split
  · rename_i u heq
    cases heq
    exact absurd rfl hv
  · rename_i u r _ heq
    cases heq
    rfl

theorem turn_of_failed {s t : Search σ ρ} {e : RunError} (h : s.attempt = (t, .error e)) :
    s.turn = t := by
  rw [turn, h]

theorem attempts_turn (s : Search σ ρ) : s.turn.tally.attempts = s.tally.attempts + 1 := by
  obtain ⟨-, -, hcount⟩ := attempt_frame s
  unfold turn
  split
  · rename_i t h
    rw [h] at hcount
    rw [advance_fst]
    exact hcount
  · rename_i t r _ h
    rw [h] at hcount
    exact hcount

theorem attempts_iterate_turn (n : Nat) (s : Search σ ρ) :
    (turn^[n] s).tally.attempts = s.tally.attempts + n := by
  induction n with
  | zero => rfl
  | succ n ih => rw [Function.iterate_succ_apply', attempts_turn, ih, Nat.add_assoc]

/-- A call is some turns, whatever it comes to. -/
theorem exists_step_eq_turns (budget : Nat) (s : Search σ ρ) :
    ∃ n, (s.step budget).1 = turn^[n] s := by
  unfold step
  by_cases hdone : s.isFinished = true
  · rw [if_pos hdone]
    exact ⟨0, rfl⟩
  · rw [if_neg hdone]
    have hnext : ∀ {t u : Search σ ρ}, (∃ n, t = turn^[n] s) → t.turn = u →
        ∃ n, u = turn^[n] s := by
      rintro t u ⟨n, rfl⟩ hu
      exact ⟨n + 1, by rw [Function.iterate_succ_apply', hu]⟩
    refine attempts_rule (I := fun t => ∃ n, t = turn^[n] s)
      (Q := fun t _ => ∃ n, t = turn^[n] s) ?_ ?_ ?_ ?_ budget s #[] ⟨0, rfl⟩
    · intro t ht
      exact ht
    · intro t u e ht h
      exact hnext ht (turn_of_failed h)
    · intro t u v ht h hv
      exact hnext ht (turn_of_kept h hv)
    · intro t u ht h
      exact hnext ht (turn_of_solved h)

/-! ## Calls one after the other -/

/-- Makes calls one after the other, and collects what they come to. -/
def stepAll : List Nat → Search σ ρ → Search σ ρ × List (Except RunError Outcome)
  | [], s => (s, [])
  | budget :: rest, s =>
      let (s, outcome, _) := s.step budget
      let (s, outcomes) := stepAll rest s
      (s, outcome :: outcomes)

theorem exists_stepAll_eq_turns (budgets : List Nat) (s : Search σ ρ) :
    ∃ n, (stepAll budgets s).1 = turn^[n] s := by
  induction budgets generalizing s with
  | nil => exact ⟨0, rfl⟩
  | cons budget rest ih =>
      obtain ⟨k, hk⟩ := exists_step_eq_turns budget s
      obtain ⟨n, hn⟩ := ih (s.step budget).1
      refine ⟨n + k, ?_⟩
      show (stepAll rest (s.step budget).1).1 = _
      rw [hn, hk, Function.iterate_add_apply]

theorem reachable_stepAll {s : Search σ ρ} (h : Reachable s) (budgets : List Nat) :
    Reachable (stepAll budgets s).1 := by
  induction budgets generalizing s with
  | nil => exact h
  | cons budget rest ih => exact ih (h.step budget)

/-! ## Attempts that do not end a call -/

/-- `n` attempts lead from the first search to the second, and none of them fails or solves the
current case. -/
inductive Searches : Nat → Search σ ρ → Search σ ρ → Prop where
  | refl (s : Search σ ρ) : Searches 0 s s
  | kept {n : Nat} {s t u : Search σ ρ} {v : Verdict} (attempt : s.attempt = (t, .ok v))
      (unsolved : v ≠ .tied true) (others : Searches n t u) : Searches (n + 1) s u

/-- What an attempt that ends a call leaves and comes to: it fails, or it solves the current case. -/
inductive Closes (s : Search σ ρ) : Search σ ρ → Except RunError Outcome → Prop where
  | failed {t : Search σ ρ} {e : RunError} (attempt : s.attempt = (t, .error e)) :
      Closes s t (.error e)
  | solved {t : Search σ ρ} (attempt : s.attempt = (t, .ok (.tied true))) :
      Closes s t.advance.1 (.ok t.advance.2.1)

theorem Searches.frame {n : Nat} {s t : Search σ ρ} (h : Searches n s t) :
    t.curriculum = s.curriculum ∧ t.current = s.current ∧
      t.tally.attempts = s.tally.attempts + n := by
  induction h with
  | refl s => exact ⟨rfl, rfl, rfl⟩
  | @kept n s t u v hattempt _ _ ih =>
      have hframe := attempt_frame s
      rw [hattempt] at hframe
      obtain ⟨hcurriculum, hcurrent, hcount⟩ := hframe
      obtain ⟨hcurriculum', hcurrent', hcount'⟩ := ih
      refine ⟨hcurriculum'.trans hcurriculum, hcurrent'.trans hcurrent, ?_⟩
      rw [hcount', hcount]
      omega

/-- What a call reports stands behind what was reported before it, and nothing else depends on
that. -/
theorem attempts_append (budget : Nat) (s : Search σ ρ) (old new : Array Event) :
    attempts budget s (old ++ new) =
      ((attempts budget s new).1, (attempts budget s new).2.1,
        old ++ (attempts budget s new).2.2) := by
  induction budget generalizing s new with
  | zero => rfl
  | succ budget ih =>
      simp only [attempts]
      split
      · rfl
      · rw [← Array.append_push]
        exact ih _ _
      · have hassoc : ∀ reports : List Event, old ++ new ++ reports = old ++ (new ++ reports) := by
          intro reports
          refine Array.toList_inj.mp ?_
          simp only [Array.toList_append, Array.toList_appendList, List.append_assoc]
        simp only [hassoc]
      · exact ih _ new

/-- A call goes on behind such attempts as if it started there. -/
theorem Searches.exists_attempts_eq {n : Nat} {s t : Search σ ρ} (h : Searches n s t)
    (events : Array Event) :
    ∃ reports, ∀ budget,
      attempts (n + budget) s events = attempts budget t (events ++ reports) := by
  induction h generalizing events with
  | refl s =>
      refine ⟨#[], fun budget => ?_⟩
      rw [Nat.zero_add, Array.append_empty]
  | @kept n s t u v hattempt hunsolved _ ih =>
      have hsucc : ∀ budget, n + 1 + budget = n + budget + 1 := fun budget => by omega
      cases v with
      | improved i score =>
          obtain ⟨reports, hreports⟩ := ih
            (events.push (.improved i score (t.case i).expected.size t.tally.attempts))
          refine ⟨#[.improved i score (t.case i).expected.size t.tally.attempts] ++ reports,
            fun budget => ?_⟩
          rw [hsucc, attempts, hattempt, ← Array.append_assoc, ← Array.push_eq_append]
          exact hreports budget
      | rejected =>
          obtain ⟨reports, hreports⟩ := ih events
          refine ⟨reports, fun budget => ?_⟩
          rw [hsucc, attempts, hattempt]
          exact hreports budget
      | tied all =>
          cases all with
          | true => exact absurd rfl hunsolved
          | false =>
              obtain ⟨reports, hreports⟩ := ih events
              refine ⟨reports, fun budget => ?_⟩
              rw [hsucc, attempts, hattempt]
              exact hreports budget

/-- A call either makes all its attempts and finds nothing, or ends with the first attempt that fails
or solves the current case. -/
theorem attempts_cases (budget : Nat) (s : Search σ ρ) (events : Array Event) :
    (Searches budget s (attempts budget s events).1 ∧
        (attempts budget s events).2.1 = .ok .stillSearching) ∨
      ∃ n < budget, ∃ t, Searches n s t ∧
        Closes t (attempts budget s events).1 (attempts budget s events).2.1 := by
  induction budget generalizing s events with
  | zero => exact .inl ⟨.refl s, rfl⟩
  | succ budget ih =>
      -- an attempt that does not end the call stands in front of what the others come to
      have hkept : ∀ {t v} (events' : Array Event), s.attempt = (t, .ok v) → v ≠ .tied true →
          (Searches (budget + 1) s (attempts budget t events').1 ∧
            (attempts budget t events').2.1 = .ok .stillSearching) ∨
          ∃ n < budget + 1, ∃ u, Searches n s u ∧
            Closes u (attempts budget t events').1 (attempts budget t events').2.1 := by
        intro t v events' hattempt hunsolved
        rcases ih t events' with ⟨hsearches, hstill⟩ | ⟨n, hn, u, hsearches, hcloses⟩
        · exact .inl ⟨.kept hattempt hunsolved hsearches, hstill⟩
        · exact .inr ⟨n + 1, Nat.succ_lt_succ hn, u, .kept hattempt hunsolved hsearches, hcloses⟩
      simp only [attempts]
      split
      · rename_i t e h
        exact .inr ⟨0, Nat.succ_pos budget, s, .refl s, .failed h⟩
      · rename_i t i score h
        exact hkept _ h (by simp)
      · rename_i t h
        exact .inr ⟨0, Nat.succ_pos budget, s, .refl s, .solved h⟩
      · rename_i t v himproved hsolved h
        refine hkept _ h ?_
        rintro rfl
        exact hsolved rfl

theorem Closes.ne_stillSearching {s t : Search σ ρ} {r : Except RunError Outcome}
    (h : Closes s t r) : r ≠ .ok .stillSearching := by
  cases h with
  | failed _ => simp
  | solved _ =>
      rw [outcome_advance]
      split <;> simp

theorem searches_of_step {budget : Nat} {s : Search σ ρ}
    (h : (s.step budget).2.1 = .ok .stillSearching) :
    s.isFinished = false ∧ Searches budget s (s.step budget).1 := by
  unfold step at h ⊢
  by_cases hdone : s.isFinished = true
  · rw [if_pos hdone] at h
    simp at h
  · rw [if_neg hdone] at h ⊢
    refine ⟨by simpa using hdone, ?_⟩
    rcases attempts_cases budget s #[] with ⟨hsearches, -⟩ | ⟨n, -, t, -, hcloses⟩
    · exact hsearches
    · exact absurd h hcloses.ne_stillSearching

theorem step_of_finished {s : Search σ ρ} (h : s.isFinished = true) (budget : Nat) :
    s.step budget = (s, .ok .allSolved, #[]) := by
  rw [step, if_pos h]

theorem step_of_open {s : Search σ ρ} (h : s.isFinished = false) (budget : Nat) :
    s.step budget = attempts budget s #[] := by
  rw [step, if_neg (by simp [h])]

theorem Searches.isFinished_eq {n : Nat} {s t : Search σ ρ} (h : Searches n s t) :
    t.isFinished = s.isFinished := by
  obtain ⟨hcurriculum, hcurrent, -⟩ := h.frame
  rw [isFinished, hcurriculum, hcurrent, isFinished]

theorem Searches.step_eq {n : Nat} {s t : Search σ ρ} (h : Searches n s t)
    (hopen : s.isFinished = false) :
    (s.step n).1 = t ∧ (s.step n).2.1 = .ok .stillSearching := by
  obtain ⟨reports, hreports⟩ := h.exists_attempts_eq #[]
  have hstep : s.step n = attempts 0 t (#[] ++ reports) :=
    (step_of_open hopen n).trans (hreports 0)
  rw [hstep]
  exact ⟨rfl, rfl⟩

theorem Searches.reachable {n : Nat} {s t : Search σ ρ} (h : Searches n s t) (hs : Reachable s)
    (hopen : s.isFinished = false) : Reachable t := by
  rw [← (h.step_eq hopen).1]
  exact hs.step n

theorem step_add {a : Nat} {s : Search σ ρ} (h : (s.step a).2.1 = .ok .stillSearching) (b : Nat) :
    s.step (a + b) = (((s.step a).1.step b).1, ((s.step a).1.step b).2.1,
      (s.step a).2.2 ++ ((s.step a).1.step b).2.2) := by
  obtain ⟨hopen, hsearches⟩ := searches_of_step h
  have hopen' : (s.step a).1.isFinished = false := hsearches.isFinished_eq.trans hopen
  obtain ⟨reports, hreports⟩ := hsearches.exists_attempts_eq #[]
  have hreported : (s.step a).2.2 = #[] ++ reports := by
    rw [step_of_open hopen]
    exact congrArg (·.2.2) (hreports 0)
  calc s.step (a + b)
      = attempts b (s.step a).1 (#[] ++ reports) := by rw [step_of_open hopen, hreports]
    _ = attempts b (s.step a).1 ((s.step a).2.2 ++ #[]) := by rw [hreported, Array.append_empty]
    _ = _ := by rw [attempts_append, step_of_open hopen']

/-! ## Budgets do not matter -/

/-- **How attempts are cut into calls does not matter**: two sequences of calls of a search, with any
budgets, that have made the same number of attempts have left it in the same state, in every part.
And a call that is still searching, with another one behind it, does and reports what one call does
with both budgets. -/
theorem stepAll_eq_of_attempts_eq (s : Search σ ρ) :
    (∀ budgets budgets' : List Nat,
      (stepAll budgets s).1.tally.attempts = (stepAll budgets' s).1.tally.attempts →
        (stepAll budgets s).1 = (stepAll budgets' s).1) ∧
      ∀ a b : Nat, (s.step a).2.1 = .ok .stillSearching →
        s.step (a + b) = (((s.step a).1.step b).1, ((s.step a).1.step b).2.1,
          (s.step a).2.2 ++ ((s.step a).1.step b).2.2) := by
  constructor
  · intro budgets budgets' h
    obtain ⟨n, hn⟩ := exists_stepAll_eq_turns budgets s
    obtain ⟨n', hn'⟩ := exists_stepAll_eq_turns budgets' s
    -- a turn counts one attempt, so both have made the same number of turns
    rw [hn, hn', attempts_iterate_turn, attempts_iterate_turn] at h
    have hsame : n = n' := by omega
    rw [hn, hn', hsame]
  · intro a b h
    exact step_add h b

end

/-- The first schedule asks for more attempts than it needs: its first call ends with the one that
solves the case. The second one makes the same attempts in calls of their own. -/
theorem stepAll_solving_eq : (stepAll [5, 1] solving).1.tally.attempts = 3 ∧
    (stepAll [1, 0, 1, 1] solving).1.tally.attempts = 3 ∧
    (stepAll [5, 1] solving).1 = (stepAll [1, 0, 1, 1] solving).1 ∧
    (solving.step 1).2.1 = .ok .stillSearching ∧
    (solving.step (1 + 4)).1 = ((solving.step 1).1.step 4).1 := by
  have hearly : (stepAll [5, 1] solving).1.tally.attempts = 3 := by decide +kernel
  have hwhole : (stepAll [1, 0, 1, 1] solving).1.tally.attempts = 3 := by decide +kernel
  have hstill : (solving.step 1).2.1 = .ok .stillSearching := by decide +kernel
  obtain ⟨hsame, hadd⟩ := stepAll_eq_of_attempts_eq solving
  refine ⟨hearly, hwhole, hsame _ _ (hearly.trans hwhole.symm), hstill, ?_⟩
  rw [hadd 1 4 hstill]

end BytecodeSearch.Search
