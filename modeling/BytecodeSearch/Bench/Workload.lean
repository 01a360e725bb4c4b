import BytecodeSearch.Assembly.Assemble

/-!
# Workloads

Programs that stress one side of the machine each, as assembly text made of a repeated body.
-/

set_option autoImplicit false

namespace BytecodeSearch

/-- A program to time. -/
structure Workload where
  /-- What the report calls it. -/
  name : String
  /-- Its assembly text. -/
  source : String

namespace Workload

/-- A text repeated `n` times. -/
def repeated (body : String) (n : Nat) : String := String.join (List.replicate n body)

/-- Arithmetic on a few registers. -/
def arithmetic (n : Nat) : String :=
  "set 1 r2\nset 2 r3\nset 3 r4\n" ++
    repeated
      ("add r2 r5\nmul r4 r5\nsub r2 r6\ndiv r3 r6\n" ++
        "rem r4 r6\nshl r3 r2\nshr r4 r3\ninc r4\n")
      n

/-- Branches, half of them taken, each over one slot. -/
def branches (n : Nat) : String :=
  let body (i : Nat) :=
    s!"jumpz r0 b{i}\ninc r2\nb{i}: jumpn r0 c{i}\ninc r3\nc{i}: xor r1 r0\n"
  "set 1 r1\n" ++ String.join ((List.range n).map body)

/-- Stores, loads and output. -/
def memory (n : Nat) : String := repeated "inc r1\nwrite r1 r1\nread r1 r2\necho r2\n" n

/-- Pauses for an answer. -/
def pauses (n : Nat) : String := repeated "in r0 r1\nadd r1 r2\n" n

/-- The workloads, in the order of the report. -/
def all : List Workload := [
  ⟨"arithmetic_mix(1K)", arithmetic 1000⟩,
  ⟨"branch_heavy(1K)", branches 1000⟩,
  ⟨"memory(1K)", memory 1000⟩,
  ⟨"suspend_resume(1K)", pauses 1000⟩]

end Workload

end BytecodeSearch
