import BytecodeSearch.Machine.Run
import BytecodeSearch.Program.Image
import BytecodeSearch.Random.ChaCha
import BytecodeSearch.Search.Case
import BytecodeSearch.Search.Edit
import BytecodeSearch.Search.Event
import BytecodeSearch.Search.Settings

/-!
# Hill climbing over a curriculum

A search works through the cases of a curriculum in order. For the current case it edits the
program and scores the cases up to the current one, in order:

* a score below the best so far of its case rejects the edit, which is undone;
* a score above it is the new best, and the edit is kept without looking at later cases;
* if every score ties, the edit is kept, and the current case is solved if every output holds
  its expected words in one run.

Best scores never go down. A search runs in chunks of attempts, and all it knows is in its state,
so a chunk goes on where the one before stopped.
-/

set_option autoImplicit false

namespace BytecodeSearch

/-- Counts over the life of a search. -/
structure Tally where
  /-- Edits tried. -/
  attempts : Nat := 0
  /-- Edits kept. -/
  accepted : Nat := 0
  /-- Edits undone. -/
  rejected : Nat := 0
  /-- Edits that raised a best score. -/
  improvements : Nat := 0
  deriving DecidableEq, Repr

/-- What scoring says about an edit. -/
inductive Verdict where
  /-- A case has become worse. -/
  | rejected
  /-- A case has become better. -/
  | improved (case score : Nat)
  /-- Every case is as it was; `solved` tells whether all of them are solved. -/
  | tied (solved : Bool)
  deriving DecidableEq, Repr

/-- What a chunk of attempts has come to. -/
inductive Outcome where
  /-- The attempts ran out. -/
  | stillSearching
  /-- The case with this number is solved, and another one is current. -/
  | caseSolved (case : Nat)
  /-- No case is left. -/
  | allSolved
  deriving DecidableEq, Repr

/-- A search with a host of type `σ` and a generator of type `ρ`. -/
structure Search (σ ρ : Type) where
  /-- The settings. -/
  settings : Settings
  /-- The cases to solve, in order. -/
  curriculum : Array Case
  /-- The best score of each case. -/
  best : Array Nat
  /-- The number of the current case. -/
  current : Nat
  /-- The program and its last edit. -/
  editor : Editor
  /-- The generator that edits are drawn from. -/
  generator : ρ
  /-- The machine that scores programs, with the output of its last run. -/
  machine : Machine σ
  /-- The counts. -/
  tally : Tally

namespace Search

variable {σ ρ : Type}

/-- A search for a curriculum that starts from a program, with its machine in place. -/
def ofParts (curriculum : Array Case) (settings : Settings) (program : Program) (host : σ)
    (generator : ρ) : Search σ ρ × List Event :=
  ({ settings := settings
     curriculum := curriculum
     best := Array.replicate curriculum.size 0
     current := 0
     editor := Editor.ofProgram program
     generator := generator
     machine := Machine.fresh settings.memorySize host
     tally := {} },
    if curriculum.isEmpty then [.nothingToSolve] else [])

/-- Makes a search, on a machine whose memory has to be allocated. -/
def create (curriculum : Array Case) (settings : Settings) (program : Program) (host : σ)
    (generator : ρ) : Except Memory.TooLarge (Search σ ρ × List Event) := do
  let _ ← Memory.allocate settings.memorySize
  return ofParts curriculum settings program host generator

section

variable (curriculum : Array Case) {settings : Settings} (program : Program) (host : σ)
  (generator : ρ)

theorem create_of_lt (h : settings.memorySize < Memory.limit) :
    create curriculum settings program host generator =
      .ok (ofParts curriculum settings program host generator) := by
  rw [create, Memory.allocate_of_lt h]
  rfl

theorem create_of_le (h : Memory.limit ≤ settings.memorySize) :
    create curriculum settings program host generator = .error ⟨settings.memorySize⟩ := by
  rw [create, Memory.allocate_of_le h]
  rfl

end

/-- The generator the settings ask for; without a seed it is that of seed zero. -/
def seededGenerator (settings : Settings) : ChaCha :=
  ChaCha.ofSeed (UInt64.ofNat (settings.seed.getD 0))

/-- A search that starts from the empty program. -/
def ofCurriculum (curriculum : Array Case) (settings : Settings) :
    Search NoHost ChaCha × List Event :=
  ofParts curriculum settings Program.empty NoHost.mk (seededGenerator settings)

/-- A search that starts from the program of an image. -/
def ofImage (curriculum : Array Case) (settings : Settings) (image : Image) :
    Except CodeError (Search NoHost ChaCha × List Event) := do
  let program ← image.toProgram
  let (s, events) := ofParts curriculum settings program NoHost.mk (seededGenerator settings)
  return (s, .resumed image.fingerprint program.slots :: events)

/-- The current program. -/
def program (s : Search σ ρ) : Program := s.editor.program

/-- Whether every case is solved. -/
def isFinished (s : Search σ ρ) : Bool := s.curriculum.size ≤ s.current

/-- The case with this number. -/
def case (s : Search σ ρ) (i : Nat) : Case := s.curriculum.getD i ⟨#[], #[]⟩

/-- The best score of the case with this number. -/
def bestScore (s : Search σ ρ) (i : Nat) : Nat := s.best.getD i 0

variable [Sensors σ]

/-- Runs a program on a case, from a machine in any state. Its output is left in the machine. -/
def runCase (p : Program) (c : Case) (m : Machine σ) : Machine σ × Except RunError Nat :=
  match (m.clearOutput.reset.load c.input).runToEnd p.code p.length Program.scoringAnswer with
  | (m, .ok ()) =>
      let score := Score.lcs m.output c.expected
      (m, .ok score)
  | (m, .error e) => (m, .error e)

/-- Scores the cases with these numbers in order, up to the first that is not a tie. -/
def scoreCases (s : Search σ ρ) (solved : Bool) : List Nat → Search σ ρ × Except RunError Verdict
  | [] => (s, .ok (.tied solved))
  | i :: rest =>
      match runCase s.program (s.case i) s.machine with
      | (m, .error e) => ({ s with machine := m }, .error e)
      | (m, .ok score) =>
          let s := { s with machine := m }
          if score < s.bestScore i then (s, .ok .rejected)
          else if s.bestScore i < score then
            ({ s with best := s.best.setIfInBounds i score }, .ok (.improved i score))
          else
            scoreCases s (solved && Score.contains s.machine.output (s.case i).expected) rest

/-- Scores the cases up to the current one. -/
def evaluate (s : Search σ ρ) : Search σ ρ × Except RunError Verdict :=
  s.scoreCases true (List.range (s.current + 1))

/-- Keeps or undoes the last edit as the verdict asks. -/
def settle (s : Search σ ρ) : Verdict → Search σ ρ
  | .rejected =>
      { s with
        editor := s.editor.rollback.1
        tally := { s.tally with rejected := s.tally.rejected + 1 } }
  | .improved _ _ =>
      { s with
        editor := s.editor.commit
        tally := { s.tally with
          accepted := s.tally.accepted + 1
          improvements := s.tally.improvements + 1 } }
  | .tied _ =>
      { s with
        editor := s.editor.commit
        tally := { s.tally with accepted := s.tally.accepted + 1 } }

/-- Edits the program at random. -/
def edit [Generator ρ] (s : Search σ ρ) : Search σ ρ :=
  let (_, editor, generator) :=
    s.editor.mutate s.settings.mutationSpeed s.settings.registers s.generator
  { s with
    editor := editor
    generator := generator
    tally := { s.tally with attempts := s.tally.attempts + 1 } }

/-- Edits the program at random, scores it and keeps or undoes the edit. -/
def attempt [Generator ρ] (s : Search σ ρ) : Search σ ρ × Except RunError Verdict :=
  match s.edit.evaluate with
  | (s, .error e) => (s, .error e)
  | (s, .ok verdict) => (s.settle verdict, .ok verdict)

/-- The current case is solved: the next one becomes current. -/
def advance (s : Search σ ρ) : Search σ ρ × Outcome × List Event :=
  let next := { s with current := s.current + 1 }
  let solved := Event.solved (s.current + 1) s.curriculum.size s.tally.attempts s.program.slots
    s.program.image.fingerprint
  if next.isFinished then (next, .allSolved, [solved, .finished s.curriculum.size])
  else (next, .caseSolved s.current, [solved])

/-- Makes up to so many attempts, behind the reports in `events`, and stops when a case is
solved. -/
def attempts [Generator ρ] :
    Nat → Search σ ρ → Array Event → Search σ ρ × Except RunError Outcome × Array Event
  | 0, s, events => (s, .ok .stillSearching, events)
  | budget + 1, s, events =>
      match s.attempt with
      | (s, .error e) => (s, .error e, events)
      | (s, .ok (.improved i score)) =>
          attempts budget s
            (events.push (.improved i score (s.case i).expected.size s.tally.attempts))
      | (s, .ok (.tied true)) =>
          let (s, outcome, reports) := s.advance
          (s, .ok outcome, events ++ reports)
      | (s, .ok _) => attempts budget s events

/-- Makes up to `budget` attempts at the current case. A finished search stays as it is. -/
def step [Generator ρ] (budget : Nat) (s : Search σ ρ) :
    Search σ ρ × Except RunError Outcome × Array Event :=
  if s.isFinished then (s, .ok .allSolved, #[]) else attempts budget s #[]

/-- Makes the attempts of a chunk. -/
def stepChunk [Generator ρ] (s : Search σ ρ) : Search σ ρ × Except RunError Outcome × Array Event :=
  s.step s.settings.chunkSize

end Search

end BytecodeSearch
