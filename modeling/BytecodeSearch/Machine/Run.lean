import BytecodeSearch.Machine.Exec
import BytecodeSearch.Program.Basic

/-!
# Runs

`Machine.run` executes code from a cursor until the cursor reaches the end of the program or an
`in` instruction pauses; `Machine.resume` stores the answer and goes on. Jumps only go forward,
so each slot runs at most once and every run ends: the distance from the cursor to the end is
the measure.

A slot whose opcode is known counts as a step, also when one of its operands is at fault.
-/

set_option autoImplicit false

namespace BytecodeSearch

/-- Why a run cannot go on. -/
inductive RunError where
  /-- The code is at fault. -/
  | code (cause : CodeError)
  /-- The start cursor is not a slot boundary. -/
  | misalignedCursor (cursor : Nat)
  /-- There is nothing to resume. -/
  | notSuspended
  /-- The machine still waits for an answer. -/
  | alreadySuspended (cursor : Nat)
  deriving DecidableEq, Repr

/-- The text of a run error. -/
def RunError.message : RunError → String
  | .code cause => cause.message
  | .misalignedCursor cursor => s!"cursor {cursor} is not a slot boundary"
  | .notSuspended => "resume called but the vm is not suspended"
  | .alreadySuspended cursor => s!"vm is suspended at word {cursor}, resume it first"

/-- Why a run has ended. -/
inductive Halt where
  /-- The cursor reached the end of the program. -/
  | completed
  /-- An `in` instruction waits for the value of `register`; the run goes on from `cursor`. -/
  | suspended (register : Reg) (query : Word) (cursor : Nat)
  deriving DecidableEq, Repr

namespace Machine

variable {σ : Type} [Sensors σ]

/-- Runs the slot at the cursor. The cursor itself is left for the flow to move. -/
def step (code : Array Word) (m : Machine σ) : Machine σ × Except CodeError (Flow m.cursor) :=
  let pos := m.cursor
  let s := Slot.read code pos
  match Opcode.ofWord? s.opcode with
  | none => (m, .error (.unknownOpcode s.opcode pos))
  | some op =>
      let counted := { m with steps := m.steps + 1 }
      match s.decodeArgs pos op with
      | .error e => (counted, .error e)
      | .ok i =>
          let (done, flow) := i.exec counted
          (done, .ok flow)

/-- Runs slots from the cursor on. -/
def loop (code : Array Word) (length : Nat) (m : Machine σ) : Machine σ × Except RunError Halt :=
  let pos := m.cursor
  if pos < length then
    match step code m with
    | (m, .error e) => (m, .error (.code e))
    | (m, .ok .next) => loop code length { m with cursor := pos + slotWidth }
    | (m, .ok (.jump target)) => loop code length { m with cursor := target.word.toNat }
    | (m, .ok (.pause query dst)) =>
        ({ m with cursor := pos + slotWidth, pending := some dst },
          .ok (.suspended dst query (pos + slotWidth)))
  else (m, .ok .completed)
  termination_by length - m.cursor
  decreasing_by
    · simp only [slotWidth]
      omega
    · have := target.forward
      omega

/-- Starts slots at a cursor, after checking length and cursor. A refused start changes
nothing. -/
def start (code : Array Word) (length cursor : Nat) (m : Machine σ) :
    Machine σ × Except RunError Halt :=
  match Code.checkLength code length with
  | .error e => (m, .error (.code e))
  | .ok () =>
      if cursor % slotWidth = 0 then loop code length { m with cursor := cursor }
      else (m, .error (.misalignedCursor cursor))

/-- Runs the first `length` words of `code` from a cursor. A machine that waits for an answer
refuses. -/
def run (code : Array Word) (length cursor : Nat) (m : Machine σ) :
    Machine σ × Except RunError Halt :=
  if m.pending.isSome then (m, .error (.alreadySuspended m.cursor))
  else start code length cursor m

/-- Hands the answer to the register that waits for it and goes on. The answer is taken even if
the start is then refused. -/
def resume (code : Array Word) (length : Nat) (answer : Word) (m : Machine σ) :
    Machine σ × Except RunError Halt :=
  match m.pending with
  | none => (m, .error .notSuspended)
  | some dst => start code length m.cursor (Machine.put { m with pending := none } dst answer)

/-! ## Runs to the end -/

/-- A pause is behind a slot of the program, and leaves the cursor further on. -/
theorem cursor_of_loop_suspended {code : Array Word} {length : Nat} {m m' : Machine σ}
    {r : Reg} {q : Word} {c : Nat} (h : loop code length m = (m', .ok (.suspended r q c))) :
    m.cursor < length ∧ m.cursor < m'.cursor := by
  fun_induction loop code length m with
  | case1 => simp at h
  | case2 m pos hlt m₁ hstep ih =>
      have := (ih h).2
      simp only [slotWidth] at this
      exact ⟨hlt, by omega⟩
  | case3 m pos hlt m₁ target hstep ih =>
      have := (ih h).2
      have := target.forward
      simp only at *
      exact ⟨hlt, by omega⟩
  | case4 m pos hlt m₁ query dst hstep =>
      simp only [Prod.mk.injEq] at h
      refine ⟨hlt, ?_⟩
      rw [← h.1]
      simp only [slotWidth]
      omega
  | case5 => simp at h

/-- A run that pauses again has moved on from where it was resumed. -/
theorem cursor_of_resume_suspended {code : Array Word} {length : Nat} {answer : Word}
    {m m' : Machine σ} {r : Reg} {q : Word} {c : Nat}
    (h : resume code length answer m = (m', .ok (.suspended r q c))) :
    m.cursor < length ∧ m.cursor < m'.cursor := by
  simp only [resume] at h
  split at h
  · simp at h
  · simp only [start] at h
    split at h
    · simp at h
    · split at h
      · simpa using cursor_of_loop_suspended h
      · simp at h

/-- Resumes with the same answer until the run ends. -/
def resumeAll (code : Array Word) (length : Nat) (answer : Word) (m : Machine σ) :
    Machine σ × Except RunError Unit :=
  match _h : resume code length answer m with
  | (m', .error e) => (m', .error e)
  | (m', .ok .completed) => (m', .ok ())
  | (m', .ok (.suspended _ _ _)) => resumeAll code length answer m'
  termination_by length - m.cursor
  decreasing_by
    have := cursor_of_resume_suspended _h
    omega

/-- Runs code from its start to its end, with the same answer to every `in`. -/
def runToEnd (code : Array Word) (length : Nat) (answer : Word) (m : Machine σ) :
    Machine σ × Except RunError Unit :=
  match run code length 0 m with
  | (m', .error e) => (m', .error e)
  | (m', .ok .completed) => (m', .ok ())
  | (m', .ok (.suspended _ _ _)) => resumeAll code length answer m'

end Machine

namespace Program

/-- What an `in` instruction gets while a program is scored. -/
def scoringAnswer : Word := 0

/-- The output of a program that runs on a fresh machine with this input in memory, no host, and
`scoringAnswer` for every `in`. The machine is there; `executeChecked` makes it first. -/
def execute (p : Program) (input : Array Word) (memorySize : Nat) :
    Except RunError (Array Word) :=
  match ((Machine.fresh memorySize NoHost.mk).load input).runToEnd p.code p.length scoringAnswer with
  | (m, .ok ()) => .ok m.output
  | (_, .error e) => .error e

/-- Why a program that is executed on its own has no output. -/
inductive ExecuteError where
  /-- There is no memory of the size asked for. -/
  | memory (cause : Memory.TooLarge)
  /-- The run cannot go on. -/
  | run (cause : RunError)
  deriving DecidableEq, Repr

/-- Makes a machine with a memory of this size and gives the output of the program that runs on it,
as `execute` does. -/
def executeChecked (p : Program) (input : Array Word) (memorySize : Nat) :
    Except ExecuteError (Array Word) :=
  match Machine.create memorySize NoHost.mk with
  | .error e => .error (.memory e)
  | .ok m =>
      match (m.load input).runToEnd p.code p.length scoringAnswer with
      | (m, .ok ()) => .ok m.output
      | (_, .error e) => .error (.run e)

theorem executeChecked_of_lt (p : Program) (input : Array Word) {memorySize : Nat}
    (h : memorySize < Memory.limit) :
    p.executeChecked input memorySize = (p.execute input memorySize).mapError .run := by
  rw [executeChecked, Machine.create_of_lt h, execute]
  dsimp only
  rcases ((Machine.fresh memorySize NoHost.mk).load input).runToEnd p.code p.length scoringAnswer
    with ⟨m, e | _⟩
  · rfl
  · rfl

theorem executeChecked_of_le (p : Program) (input : Array Word) {memorySize : Nat}
    (h : Memory.limit ≤ memorySize) :
    p.executeChecked input memorySize = .error (.memory ⟨memorySize⟩) := by
  rw [executeChecked, Machine.create_of_le h]

end Program

end BytecodeSearch
