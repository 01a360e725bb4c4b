import BytecodeSearch.Proofs.Search.Edits
import BytecodeSearch.Search.Climb

/-!
# Scoring

A search scores a program on a machine that it uses again and again. Without a host this comes to
the output of the program on a fresh machine (`reading_runCase`), and a valid program has one
(`exists_runCase_eq_execute`). What scoring case by case then says is `Judged`: the verdict that the
outputs and the best scores lead to, with the early exits at a case that has become worse or better.
-/

set_option autoImplicit false

namespace BytecodeSearch

/-- The best scores after a verdict. -/
def Verdict.raise (best : Array Nat) : Verdict → Array Nat
  | .improved i score => best.setIfInBounds i score
  | _ => best

namespace Search

variable {σ ρ : Type}

/-! ## One case -/

/-- What running a case has come to: the output that is left in the machine, and the score. -/
def reading {σ : Type} (r : Machine σ × Except RunError Nat) : Except RunError (Array Word × Nat) :=
  r.2.map fun score => (r.1.output, score)

/-- The output of a program on a case, on a fresh machine, and the score of that output. -/
def freshReading (p : Program) (c : Case) (memorySize : Nat) :
    Except RunError (Array Word × Nat) :=
  (p.execute c.input memorySize).map fun out => (out, Score.lcs out c.expected)

/-- Running a case keeps the size of the memory, whatever it comes to. -/
theorem size_memory_runCase [Sensors σ] (p : Program) (c : Case) (m : Machine σ) :
    (runCase p c m).1.memory.size = m.memory.size := by
  have hsize := Machine.size_memory_runToEnd p.code p.length Program.scoringAnswer
    (m.clearOutput.reset.load c.input)
  have hstart : (m.clearOutput.reset.load c.input).memory.size = m.memory.size := by
    show (m.memory.clear.load c.input).size = m.memory.size
    rw [Memory.size_load, Memory.size_clear]
  rw [← hstart, ← hsize]
  simp only [runCase]
  split
  · rename_i h
    rw [h]
  · rename_i h
    rw [h]

/-- On a valid program every case has a score, and the machine keeps the size of its memory. -/
theorem exists_runCase_eq [Sensors σ] {p : Program} (hp : Code.IsValid p.code p.length) (c : Case)
    (m : Machine σ) :
    ∃ m', runCase p c m = (m', .ok (Score.lcs m'.output c.expected)) ∧
      m'.memory.size = m.memory.size := by
  obtain ⟨m', hrun⟩ := Machine.exists_runToEnd_eq_ok hp Program.scoringAnswer
    (m := m.clearOutput.reset.load c.input) rfl
  have hcase : runCase p c m = (m', .ok (Score.lcs m'.output c.expected)) := by
    simp only [runCase, hrun]
  refine ⟨m', hcase, ?_⟩
  rw [← size_memory_runCase p c m, hcase]

/-- **Nothing leaks between runs**: without a host, running a case on a machine in any state comes to
the output and the score of a fresh machine, or to the same error. -/
theorem reading_runCase (p : Program) (c : Case) (m : Machine NoHost) :
    reading (runCase p c m) = freshReading p c m.memory.size := by
  -- of the machine only the size of the memory is left, and a host that is not there has no state
  have hfresh : m.clearOutput.reset.load c.input =
      (Machine.fresh m.memory.size NoHost.mk).load c.input := rfl
  simp only [reading, freshReading, runCase, Program.execute, hfresh]
  split
  · rename_i h
    rw [h]
    rfl
  · rename_i h
    rw [h]
    rfl

/-- Without a host, scoring a valid program from a machine in any state gives the output that the
program has on a fresh machine. -/
theorem exists_runCase_eq_execute {p : Program} (hp : Code.IsValid p.code p.length) (c : Case)
    (m : Machine NoHost) :
    ∃ m', runCase p c m = (m', .ok (Score.lcs m'.output c.expected)) ∧
      m'.memory.size = m.memory.size ∧ p.execute c.input m.memory.size = .ok m'.output := by
  obtain ⟨m', hrun, hsize⟩ := exists_runCase_eq hp c m
  refine ⟨m', hrun, hsize, ?_⟩
  have hreading := reading_runCase p c m
  rw [hrun, freshReading] at hreading
  cases hout : p.execute c.input m.memory.size with
  | error e =>
      rw [hout] at hreading
      cases hreading
  | ok out =>
      rw [hout] at hreading
      obtain ⟨rfl, -⟩ := Prod.mk.inj (Except.ok.inj hreading)
      rfl

/-! ## The verdict -/

/-- The verdict on some cases, in order, when the output on case `i` is one of those that
`Yields i` allows; `solved` tells whether the cases before were. -/
inductive Judged (best : Nat → Nat) (expected : Nat → Array Word)
    (Yields : Nat → Array Word → Prop) : Bool → List Nat → Verdict → Prop where
  /-- No case is left. -/
  | tied {solved : Bool} : Judged best expected Yields solved [] (.tied solved)
  /-- The next case has become worse. -/
  | rejected {solved : Bool} {i : Nat} {rest : List Nat} {out : Array Word} (yields : Yields i out)
      (worse : Score.lcs out (expected i) < best i) :
      Judged best expected Yields solved (i :: rest) .rejected
  /-- The next case has become better. -/
  | improved {solved : Bool} {i : Nat} {rest : List Nat} {out : Array Word} (yields : Yields i out)
      (better : best i < Score.lcs out (expected i)) :
      Judged best expected Yields solved (i :: rest) (.improved i (Score.lcs out (expected i)))
  /-- The next case is as it was. -/
  | same {solved : Bool} {i : Nat} {rest : List Nat} {out : Array Word} {v : Verdict}
      (yields : Yields i out) (same : Score.lcs out (expected i) = best i)
      (others : Judged best expected Yields (solved && Score.contains out (expected i)) rest v) :
      Judged best expected Yields solved (i :: rest) v

variable {best : Nat → Nat} {expected : Nat → Array Word} {Yields : Nat → Array Word → Prop}
  {solved : Bool} {cases : List Nat}

/-- After a tie every case has the score it had, and if the cases are solved, every output holds the
expected words in one run. -/
theorem Judged.of_tied {all : Bool} (h : Judged best expected Yields solved cases (.tied all)) :
    (all = true → solved = true) ∧ ∀ i ∈ cases, ∃ out, Yields i out ∧
      Score.lcs out (expected i) = best i ∧
        (all = true → Score.contains out (expected i) = true) := by
  generalize hv : Verdict.tied all = v at h
  -- a case that has become worse or better is the last one, and its verdict is no tie
  induction h with
  | tied =>
      cases hv
      exact ⟨id, by simp⟩
  | rejected => simp at hv
  | improved => simp at hv
  | @same solved i rest out v yields same _ ih =>
      obtain ⟨hsolved, hrest⟩ := ih hv
      refine ⟨fun hall => (Bool.and_eq_true_iff.mp (hsolved hall)).1, fun j hj => ?_⟩
      rcases List.mem_cons.mp hj with rfl | hj
      · exact ⟨out, yields, same, fun hall => (Bool.and_eq_true_iff.mp (hsolved hall)).2⟩
      · exact hrest j hj

/-- After an improvement the improved case has a score above its best, and the cases before it have
the scores they had. -/
theorem Judged.of_improved {k score : Nat} (hcases : cases.Pairwise (· < ·))
    (h : Judged best expected Yields solved cases (.improved k score)) :
    k ∈ cases ∧ best k < score ∧ (∃ out, Yields k out ∧ score = Score.lcs out (expected k)) ∧
      ∀ i ∈ cases, i < k → ∃ out, Yields i out ∧ Score.lcs out (expected i) = best i := by
  generalize hv : Verdict.improved k score = v at h
  induction h with
  | tied => simp at hv
  | rejected => simp at hv
  | @improved solved i rest out yields better =>
      cases hv
      -- no case of an increasing list is below its first one
      refine ⟨List.mem_cons_self, better, ⟨out, yields, rfl⟩, fun j hj hlt => ?_⟩
      rcases List.mem_cons.mp hj with rfl | hj
      · exact absurd hlt (Nat.lt_irrefl j)
      · exact absurd hlt (Nat.lt_asymm ((List.pairwise_cons.mp hcases).1 j hj))
  | @same solved i rest out v yields same _ ih =>
      obtain ⟨hmem, hbetter, hscore, hbefore⟩ := ih (List.pairwise_cons.mp hcases).2 hv
      refine ⟨List.mem_cons_of_mem _ hmem, hbetter, hscore, fun j hj hlt => ?_⟩
      rcases List.mem_cons.mp hj with rfl | hj
      · exact ⟨out, yields, same⟩
      · exact hbefore j hj hlt

/-- Nothing is rejected if no output scores below its best. -/
theorem Judged.ne_rejected {v : Verdict} (h : Judged best expected Yields solved cases v)
    (hkeeps : ∀ i ∈ cases, ∀ out, Yields i out → best i ≤ Score.lcs out (expected i)) :
    v ≠ .rejected := by
  induction h with
  | tied => simp
  | rejected yields worse =>
      exact absurd worse (Nat.not_lt.mpr (hkeeps _ List.mem_cons_self _ yields))
  | improved => simp
  | same _ _ _ ih => exact ih fun i hi => hkeeps i (List.mem_cons_of_mem _ hi)

/-! ## Scoring in the machine -/

section

variable [Sensors σ] {I : Machine σ → Prop}

/-- Scoring changes the machine and, after an improvement, one best score. The runs on single cases
are taken from `hrun`, with an invariant `I` of the machine. -/
theorem exists_scoreCases_eq {s : Search σ ρ}
    (hrun : ∀ i m, I m → ∃ m', runCase s.program (s.case i) m =
      (m', .ok (Score.lcs m'.output (s.case i).expected)) ∧ I m' ∧ Yields i m'.output)
    (solved : Bool) (cases : List Nat) (hm : I s.machine) :
    ∃ m v, s.scoreCases solved cases =
        ({ s with machine := m, best := v.raise s.best }, .ok v) ∧ I m ∧
      Judged s.bestScore (fun i => (s.case i).expected) Yields solved cases v := by
  induction cases generalizing s solved with
  | nil => exact ⟨s.machine, .tied solved, rfl, hm, .tied⟩
  | cons i rest ih =>
      obtain ⟨m, hcase, hI, hyields⟩ := hrun i s.machine hm
      simp only [scoreCases, hcase]
      by_cases hworse : Score.lcs m.output (s.case i).expected < s.bestScore i
      · exact ⟨m, .rejected, if_pos hworse, hI, .rejected hyields hworse⟩
      · by_cases hbetter : s.bestScore i < Score.lcs m.output (s.case i).expected
        · exact ⟨m, .improved i (Score.lcs m.output (s.case i).expected),
            (if_neg hworse).trans (if_pos hbetter), hI, .improved hyields hbetter⟩
        · have hsame : Score.lcs m.output (s.case i).expected = s.bestScore i := by omega
          obtain ⟨m', v, heq, hI', hjudged⟩ := ih (s := { s with machine := m }) hrun
            (solved && Score.contains m.output (s.case i).expected) hI
          exact ⟨m', v, ((if_neg hworse).trans (if_neg hbetter)).trans heq, hI',
            .same hyields hsame hjudged⟩

end

end Search

end BytecodeSearch
