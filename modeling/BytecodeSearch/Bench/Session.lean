import BytecodeSearch.Bench.Report
import BytecodeSearch.Bench.Workload
import BytecodeSearch.Report.Journal
import BytecodeSearch.Search.Climb

/-!
# A benchmark session

A session times the workloads, random edits and two searches, one after the other. It is driven
by clock readings: `Session.read` takes the next reading and does the work up to the one after,
so the clock itself stays outside, and a session with given readings is a pure computation.

Each subject is timed in the same way. One reading starts the time. Each further reading tests
whether two seconds have passed, and if not, one more iteration is made. The last reading stops
the time. A search that has solved every case needs no further test.
-/

set_option autoImplicit false

namespace BytecodeSearch.Bench

/-- How long each subject is timed, in nanoseconds. -/
def duration : Nat := 2 * nanosPerSecond

/-- What is to be timed. -/
inductive Task where
  /-- Runs of a program. -/
  | runs (name : String) (program : Program)
  /-- Edits that are undone again. -/
  | edits
  /-- Chunks of a search. -/
  | search (name : String) (curriculum : Array Case)

/-- What is being timed. -/
inductive Subject where
  /-- Runs of a program on a machine. -/
  | runs (name : String) (program : Program) (machine : Machine NoHost)
  /-- Edits that are undone again. -/
  | edits (settings : Settings) (editor : Editor) (generator : ChaCha)
  /-- Chunks of a search. -/
  | search (name : String) (state : Search NoHost ChaCha)

/-- How the timing goes on behind an iteration. -/
inductive Turn where
  /-- With a test of the time. -/
  | test
  /-- With the reading that stops the time. -/
  | stop
  /-- Not at all. -/
  | fail (message : String)

namespace Subject

/-- Makes one iteration. Gives the number of instructions it ran as well. -/
def iterate : Subject → Subject × Nat × Turn
  | runs name p m =>
      let (m, _) := (m.reset.load #[3, 1, 4]).clearOutput.runToEnd p.code p.length 1
      let steps := m.steps
      (runs name p m, steps, .test)
  | edits settings e g =>
      let (_, e, g) := e.mutate settings.mutationSpeed settings.registers g
      (edits settings e.rollback.1 g, 0, .test)
  | search name s =>
      match s.stepChunk with
      | (s, .ok .allSolved, _) => (search name s, 0, .stop)
      | (s, .ok _, _) => (search name s, 0, .test)
      | (s, .error e, _) => (search name s, 0, .fail s!"{name} search failed: {e.message}")

/-- Makes iterations that are not timed. -/
def warmUp (s : Subject) : Nat → Subject
  | 0 => s
  | n + 1 => warmUp s.iterate.1 n

/-- An editor of the empty program behind `n` edits. -/
def edited (settings : Settings) : Nat → Editor × ChaCha → Editor × ChaCha
  | 0, state => state
  | n + 1, (e, g) =>
      let (_, e, g) := e.mutate settings.mutationSpeed settings.registers g
      edited settings n (e, g)

/-- The subject of a task, ready to be timed. -/
def ofTask (settings : Settings) : Task → Subject
  | .runs name p => warmUp (runs name p (Machine.fresh settings.memorySize NoHost.mk)) 5
  | .edits =>
      let (e, g) := edited settings 1000 (Editor.ofProgram Program.empty, ChaCha.ofSeed 1)
      warmUp (edits settings e g) 5
  | .search name curriculum =>
      search name (Search.ofCurriculum curriculum (settings.withSeed (settings.seed.getD 1))).1

/-- The report line of a subject, for its iterations, their time and the instructions of the
last one. -/
def line (iterations elapsed steps : Nat) : Subject → String
  | runs name _ _ => Timing.line ⟨iterations, elapsed⟩ name steps
  | edits _ _ _ => Timing.line ⟨iterations, elapsed⟩ "mutate_rollback" steps
  | search name s =>
      searchLine name s.tally.attempts elapsed s.current s.curriculum.size s.program.slots

end Subject

/-- What the next clock reading is for. -/
inductive Phase where
  /-- It starts the time. -/
  | start
  /-- It tests the time since the start. -/
  | test (started : Nat)
  /-- It stops the time. -/
  | stop (started : Nat)

/-- A timing under way. -/
structure Stage where
  /-- What is timed. -/
  subject : Subject
  /-- What the next reading is for. -/
  phase : Phase
  /-- The number of timed iterations. -/
  iterations : Nat
  /-- The number of instructions of the last one. -/
  steps : Nat

/-- A benchmark session. -/
structure Session where
  /-- The settings. -/
  settings : Settings
  /-- The timing under way, if the session has not ended. -/
  stage : Option Stage
  /-- What is still to be timed, with the lines to print before. -/
  tasks : List (List String × Task)
  /-- The lines of the report so far. -/
  report : Array String
  /-- What has been written to the journal so far. -/
  journal : String

namespace Session

/-- Goes on to the next task, or ends the session with an empty line. -/
def next (s : Session) : Session :=
  match s.tasks with
  | [] => { s with stage := none, report := s.report.push "" }
  | (lines, task) :: rest =>
      { s with
        stage := some ⟨Subject.ofTask s.settings task, .start, 0, 0⟩
        tasks := rest
        report := s.report ++ lines }

/-- How the journal of a session is written. -/
def journalStyle : Journal where
  minimum := .warn
  stamped := false

/-- The lines over the timings. -/
def timingHead : List String :=
  ["VM Benchmarks (each runs for >= 2s)", "", tableHead, tableRule]

/-- The lines over the searches. -/
def searchHead : List String := ["", "Search Benchmarks", ""]

/-- The curriculum of two cases that ask for the input word. -/
def echoCurriculum : Array Case := #[⟨#[0], #[0]⟩, ⟨#[1], #[1]⟩]

/-- The tasks of a session. -/
def allTasks : Except AssemblyError (List (List String × Task)) := do
  let runs ← Workload.all.mapM fun w => do
    let p ← Assembly.assemble w.source
    return ([], Task.runs w.name p)
  return (runs ++ [([], .edits), (searchHead, .search "echo" echoCurriculum),
    ([], .search "boolean" booleanCurriculum)])

/-- Why a session does not start. -/
inductive StartError where
  /-- There is no memory of the size the settings ask for. -/
  | memory (cause : Memory.TooLarge)
  /-- The text of a workload is at fault. -/
  | assembly (cause : AssemblyError)

/-- The text of the reason. -/
def StartError.message : StartError → String
  | .memory cause => cause.message
  | .assembly cause => "asm: " ++ cause.message

/-- A session before its first clock reading. -/
def start (settings : Settings) : Except StartError Session := do
  let _ ← (Memory.allocate settings.memorySize).mapError .memory
  let tasks ← allTasks.mapError .assembly
  return next ⟨settings, none, tasks, timingHead.toArray, ""⟩

/-- Whether the session has ended. -/
def isOver (s : Session) : Bool := s.stage.isNone

/-- Makes one timed iteration. -/
def iterate (s : Session) (stage : Stage) (started : Nat) : Session :=
  let (subject, steps, turn) := stage.subject.iterate
  let again (phase : Phase) : Session :=
    { s with stage := some ⟨subject, phase, stage.iterations + 1, steps⟩ }
  match turn with
  | .test => again (.test started)
  | .stop => again (.stop started)
  | .fail message =>
      next { s with journal := s.journal ++ journalStyle.write "" .error message }

/-- Takes a clock reading and goes on until the next one is needed. -/
def read (s : Session) (now : Nat) : Session :=
  match s.stage with
  | none => s
  | some stage =>
      match stage.phase with
      | .start => { s with stage := some { stage with phase := .test now } }
      | .test started =>
          if now - started < duration then iterate s stage started
          else { s with stage := some { stage with phase := .stop started } }
      | .stop started =>
          next { s with
            report := s.report.push
              (stage.subject.line stage.iterations (now - started) stage.steps) }

end Session

end BytecodeSearch.Bench
