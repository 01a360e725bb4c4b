import BytecodeSearch.Proofs.Search.Scoring

/-!
# Attempts and the states of a search

An attempt is a legal edit, a verdict on the edited program, and what the verdict asks for
(`exists_attempt_eq`). A call of a search is a run of attempts (`attempts_rule`), and the states
that calls lead to are the `Reachable` ones.
-/

set_option autoImplicit false

namespace BytecodeSearch.Search

variable {σ ρ : Type}

/-! ## One attempt -/

/-- The search behind an attempt that has applied an edit, left the generator in state `g` and the
machine in state `m`, and come to a verdict. -/
def settled (s : Search σ ρ) (edit : Edit) (g : ρ) (m : Machine σ) (v : Verdict) : Search σ ρ :=
  settle { s with
    editor := s.editor.apply edit
    generator := g
    machine := m
    best := v.raise s.best
    tally := { s.tally with attempts := s.tally.attempts + 1 } } v

section

variable (s : Search σ ρ) (edit : Edit) (g : ρ) (m : Machine σ) (v : Verdict)

theorem settled_settings : (s.settled edit g m v).settings = s.settings := by
  cases v <;> simp only [settled, settle]

theorem settled_curriculum : (s.settled edit g m v).curriculum = s.curriculum := by
  cases v <;> simp only [settled, settle]

theorem settled_current : (s.settled edit g m v).current = s.current := by
  cases v <;> simp only [settled, settle]

theorem settled_best : (s.settled edit g m v).best = v.raise s.best := by
  cases v <;> simp only [settled, settle]

theorem settled_machine : (s.settled edit g m v).machine = m := by
  cases v <;> simp only [settled, settle]

theorem settled_program : (s.settled edit g m v).program =
    if v = .rejected then (s.editor.apply edit).rollback.1.program
    else (s.editor.apply edit).program := by
  cases v <;> simp [settled, settle, program, Editor.commit]

variable {v}

/-- The editor and the counts behind an edit that is kept. -/
theorem settled_of_kept (hkept : v ≠ .rejected) :
    (s.settled edit g m v).editor = (s.editor.apply edit).commit ∧
      (s.settled edit g m v).tally.accepted = s.tally.accepted + 1 ∧
      (s.settled edit g m v).tally.rejected = s.tally.rejected := by
  cases v with
  | rejected => exact absurd rfl hkept
  | improved _ _ => exact ⟨rfl, rfl, rfl⟩
  | tied _ => exact ⟨rfl, rfl, rfl⟩

end

/-- The program behind an attempt is valid, also if the edit is undone. -/
theorem isValid_settled {s : Search σ ρ} {edit : Edit} {registers : Nat}
    (hs : Code.IsValid s.program.code s.program.length)
    (hedit : edit.IsLegal s.program.length registers) (hregisters : registers ≤ registerCount)
    (g : ρ) (m : Machine σ) (v : Verdict) :
    Code.IsValid (s.settled edit g m v).program.code (s.settled edit g m v).program.length := by
  rw [settled_program]
  by_cases hv : v = .rejected
  · rw [if_pos hv]
    exact Editor.isValid_rollback_apply hs hedit.aligned
  · rw [if_neg hv]
    exact Editor.isValid_apply hs hedit hregisters

variable [Generator ρ]

theorem exists_edit_eq {s : Search σ ρ} (hs : s.program.length % slotWidth = 0) :
    ∃ edit g, edit.IsLegal s.program.length (Edit.clampRegisters s.settings.registers) ∧
      s.edit = { s with
        editor := s.editor.apply edit
        generator := g
        tally := { s.tally with attempts := s.tally.attempts + 1 } } := by
  obtain ⟨edit, g, hlegal, hmutate⟩ := Editor.exists_mutate_eq (e := s.editor) hs
    s.settings.mutationSpeed s.settings.registers s.generator
  exact ⟨edit, g, hlegal, by rw [Search.edit, hmutate]⟩

variable [Sensors σ]

/-- An attempt that applies this edit to a valid program comes to a verdict. The runs of valid programs
on single cases are taken from `hrun`. -/
theorem exists_attempt_of_edit_eq {I : Machine σ → Prop}
    (Yields : Program → Nat → Array Word → Prop) {s : Search σ ρ} {edit : Edit} {g : ρ}
    (hs : Code.IsValid s.program.code s.program.length)
    (hlegal : edit.IsLegal s.program.length (Edit.clampRegisters s.settings.registers))
    (hedit : s.edit = { s with
      editor := s.editor.apply edit
      generator := g
      tally := { s.tally with attempts := s.tally.attempts + 1 } })
    (hrun : ∀ p : Program, Code.IsValid p.code p.length → ∀ i m, I m →
      ∃ m', runCase p (s.case i) m = (m', .ok (Score.lcs m'.output (s.case i).expected)) ∧
        I m' ∧ Yields p i m'.output)
    (hm : I s.machine) :
    ∃ m v, I m ∧ Judged s.bestScore (fun i => (s.case i).expected)
        (Yields (s.editor.apply edit).program) true (List.range (s.current + 1)) v ∧
      s.attempt = (s.settled edit g m v, .ok v) := by
  have hvalid := Editor.isValid_apply hs hlegal (Edit.clampRegisters_le _)
  -- scoring starts from the edited search, which has the cases and best scores of `s`
  have hprogram : s.edit.program = (s.editor.apply edit).program := by rw [hedit, program]
  have hcase : s.edit.case = s.case := by
    unfold case
    rw [hedit]
  have hscore : s.edit.bestScore = s.bestScore := by
    unfold bestScore
    rw [hedit]
  have hmachine : s.edit.machine = s.machine := by rw [hedit]
  obtain ⟨m, v, heq, hI, hjudged⟩ := exists_scoreCases_eq (s := s.edit)
    (by rw [hprogram, hcase]; exact hrun _ hvalid) true (List.range (s.current + 1))
    (by rw [hmachine]; exact hm)
  rw [hscore, hcase] at hjudged
  refine ⟨m, v, hI, hjudged, ?_⟩
  have hcurrent : s.edit.current = s.current := by rw [hedit]
  rw [attempt, evaluate, hcurrent, heq, hedit, settled]

/-- From a valid program every attempt applies a legal edit and comes to a verdict. -/
theorem exists_attempt_eq {I : Machine σ → Prop} (Yields : Program → Nat → Array Word → Prop)
    {s : Search σ ρ} (hs : Code.IsValid s.program.code s.program.length)
    (hrun : ∀ p : Program, Code.IsValid p.code p.length → ∀ i m, I m →
      ∃ m', runCase p (s.case i) m = (m', .ok (Score.lcs m'.output (s.case i).expected)) ∧
        I m' ∧ Yields p i m'.output)
    (hm : I s.machine) :
    ∃ edit g m v, edit.IsLegal s.program.length (Edit.clampRegisters s.settings.registers) ∧
      I m ∧ Judged s.bestScore (fun i => (s.case i).expected) (Yields (s.editor.apply edit).program)
        true (List.range (s.current + 1)) v ∧
      s.attempt = (s.settled edit g m v, .ok v) := by
  obtain ⟨edit, g, hlegal, hedit⟩ := exists_edit_eq hs.isLength.1
  obtain ⟨m, v, hI, hjudged, heq⟩ := exists_attempt_of_edit_eq Yields hs hlegal hedit hrun hm
  exact ⟨edit, g, m, v, hlegal, hI, hjudged, heq⟩

/-- An attempt reports the verdict on the edited program. -/
theorem snd_attempt (s : Search σ ρ) : s.attempt.2 = s.edit.evaluate.2 := by
  unfold attempt
  split
  · rename_i h
    rw [h]
  · rename_i h
    rw [h]

/-! ## A call -/

/-- What holds of all attempts of a call holds of the call: `I` holds before each attempt, and `Q`
of how the call ends, because the attempts run out, one fails or one solves the case. -/
theorem attempts_rule {I : Search σ ρ → Prop} {Q : Search σ ρ → Except RunError Outcome → Prop}
    (exhausted : ∀ s, I s → Q s (.ok .stillSearching))
    (failed : ∀ s t e, I s → s.attempt = (t, .error e) → Q t (.error e))
    (kept : ∀ s t v, I s → s.attempt = (t, .ok v) → v ≠ .tied true → I t)
    (solved : ∀ s t, I s → s.attempt = (t, .ok (.tied true)) → Q t.advance.1 (.ok t.advance.2.1))
    (budget : Nat) (s : Search σ ρ) (events : Array Event) (hs : I s) :
    Q (attempts budget s events).1 (attempts budget s events).2.1 := by
  induction budget generalizing s events with
  | zero => exact exhausted s hs
  | succ budget ih =>
      simp only [attempts]
      split
      · rename_i t e h
        exact failed s t e hs h
      · rename_i t i score h
        exact ih t _ (kept s t _ hs h (by simp))
      · rename_i t h
        exact solved s t hs h
      · rename_i t v himproved hsolved h
        refine ih t _ (kept s t v hs h ?_)
        rintro rfl
        exact hsolved rfl

theorem step_one_of_kept {s : Search σ ρ} {v : Verdict} (hopen : s.isFinished = false)
    (h : s.attempt.2 = .ok v) (hv : v ≠ .tied true) : (s.step 1).1 = s.attempt.1 := by
  have hattempt : s.attempt = (s.attempt.1, .ok v) := Prod.ext rfl h
  unfold step
  rw [if_neg (by simp [hopen]), attempts, hattempt]
  cases v with
  | rejected => rfl
  | improved _ _ => rfl
  | tied all =>
      cases all with
      | true => exact absurd rfl hv
      | false => rfl

theorem step_one_of_solved {s : Search σ ρ} (hopen : s.isFinished = false)
    (h : s.attempt.2 = .ok (.tied true)) :
    (s.step 1).1 = s.attempt.1.advance.1 ∧ (s.step 1).2.1 = .ok s.attempt.1.advance.2.1 := by
  have hattempt : s.attempt = (s.attempt.1, .ok (.tied true)) := Prod.ext rfl h
  unfold step
  rw [if_neg (by simp [hopen]), attempts, hattempt]
  exact ⟨rfl, rfl⟩

/-- The states that calls lead to, from any curriculum, settings, valid program, host and
generator. -/
inductive Reachable : Search σ ρ → Prop where
  /-- A search that starts. -/
  | ofParts (curriculum : Array Case) (settings : Settings) (program : Program) (host : σ)
      (generator : ρ) (valid : program.validate = .ok ()) :
      Reachable (ofParts curriculum settings program host generator).1
  /-- A call with any budget. -/
  | step {s : Search σ ρ} (before : Reachable s) (budget : Nat) : Reachable (s.step budget).1

namespace Reachable

theorem ofCurriculum (curriculum : Array Case) (settings : Settings) :
    Reachable (Search.ofCurriculum curriculum settings).1 :=
  .ofParts curriculum settings Program.empty NoHost.mk _ Program.validate_empty

theorem ofImage {curriculum : Array Case} {settings : Settings} {image : Image}
    {s : Search NoHost ChaCha} {events : List Event}
    (h : Search.ofImage curriculum settings image = .ok (s, events)) : Reachable s := by
  simp only [Search.ofImage, bind_eq_ok_iff] at h
  obtain ⟨program, hprogram, hs⟩ := h
  cases hs
  exact .ofParts curriculum settings program NoHost.mk _ (Program.validate_of_toProgram hprogram)

theorem stepChunk {s : Search σ ρ} (h : Reachable s) : Reachable s.stepChunk.1 :=
  h.step s.settings.chunkSize

end Reachable

end BytecodeSearch.Search
