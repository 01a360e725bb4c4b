import BytecodeSearch.Proofs.Search.Solved

/-!
# One machine for all cases

A search runs all its programs on one machine and into one output. `runCases` does so with any programs
and cases, one after the other, whatever the single runs come to. Without a host every run comes to what
it comes to on a fresh machine (`runCases_eq_map`), so the score of a case depends neither on the cases
that are scored before it nor on earlier programs.

The machine of a search has the memory that the settings ask for, in every state that calls lead to. So
what a search reads off its machine is what the program does on a fresh machine with these settings
(`runCase_of_reachable`).
-/

set_option autoImplicit false

namespace BytecodeSearch.Search

variable {σ ρ : Type}

/-- Runs programs on cases one after the other, each on the machine that the run before has left, and
collects what the runs come to. -/
def runCases [Sensors σ] (m : Machine σ) :
    List (Program × Case) → List (Except RunError (Array Word × Nat))
  | [] => []
  | (p, c) :: jobs => reading (runCase p c m) :: runCases (runCase p c m).1 jobs

/-- Every run comes to what it comes to on a fresh machine. -/
theorem runCases_eq_map (m : Machine NoHost) (jobs : List (Program × Case)) :
    runCases m jobs = jobs.map fun job => freshReading job.1 job.2 m.memory.size := by
  induction jobs generalizing m with
  | nil => rfl
  | cons job jobs ih =>
      -- of the run before only the size of the memory is seen
      rw [runCases, ih, size_memory_runCase, reading_runCase, List.map_cons]

/-- **Cases do not disturb each other.** Take any state that a search without a host comes to, and let
its machine hold anything: any registers, memory, cursor and count, a register that waits for an answer,
and any output. Scoring the program on a case leaves the output that the program has on a fresh machine
with the memory of the settings, and gives the score of that output. And whatever programs are run on
whatever cases before, every run comes to the output and score of a fresh machine, or to its error. -/
theorem runCase_of_reachable [Generator ρ] {s : Search NoHost ρ} (h : Reachable s)
    {m : Machine NoHost} (hm : m.memory.size = s.machine.memory.size) :
    (∀ i < s.curriculum.size, ∃ out t,
      s.program.execute (s.case i).input s.settings.memorySize = .ok out ∧
        runCase s.program (s.case i) m = (t, .ok (Score.lcs out (s.case i).expected)) ∧
          t.output = out ∧ t.memory.size = s.settings.memorySize) ∧
      ∀ jobs : List (Program × Case), runCases m jobs =
        jobs.map fun job => freshReading job.1 job.2 s.settings.memorySize := by
  have hsize : m.memory.size = s.settings.memorySize := hm.trans h.inv.memory
  constructor
  · intro i _
    obtain ⟨t, hrun, hmemory, hout⟩ := exists_runCase_yields s s.program h.inv.valid i m hsize
    exact ⟨t.output, t, hout, hrun, rfl, hmemory⟩
  · intro jobs
    rw [runCases_eq_map, hsize]

/-- A machine that waits for an answer, with something in every register, in memory and put out. -/
def used : Machine NoHost where
  registers := Vector.replicate 8 9
  memory := ⟨#[5, 6, 7, 8]⟩
  output := #[1, 3]
  host := NoHost.mk
  cursor := 12
  pending := some 3
  steps := 40

/-- On the used machine the search reads off the output `1, 0, 3`, and a score of two. -/
theorem runCase_used : Reachable solvingTied ∧
    used.memory.size = solvingTied.machine.memory.size ∧
      ∃ t, runCase solvingTied.program (solvingTied.case 0) used = (t, .ok 2) ∧
        t.output = #[1, 0, 3] := by
  have hsettings : solvingTied.settings.memorySize = 4 := by decide +kernel
  have hsize : used.memory.size = solvingTied.machine.memory.size := by
    rw [reachable_solvingTied.inv.memory, hsettings]
    rfl
  have hcase : 0 < solvingTied.curriculum.size := by rw [curriculum_solvingTied]; decide
  refine ⟨reachable_solvingTied, hsize, ?_⟩
  obtain ⟨out, t, hout, hrun, hleft, -⟩ :=
    (runCase_of_reachable reachable_solvingTied hsize).1 0 hcase
  have hknown := outputOn_solvingTied
  rw [outputOn, hout] at hknown
  obtain rfl := Except.ok.inj hknown
  refine ⟨t, ?_, hleft⟩
  rw [hrun, case_solvingTied]
  rfl

end BytecodeSearch.Search
