import BytecodeSearch.Binary.Codec
import BytecodeSearch.Isa.Opcode

/-!
# Cases and scores

A case asks a program for certain output on certain input. Two measures compare what a program
puts out with what is expected: `lcs`, the length of the longest common subsequence, says how
near it is, and `contains` says whether the expected words stand in the output in one run, which
is when the case is solved.
-/

set_option autoImplicit false

namespace BytecodeSearch

/-- What memory holds at the start, and the output wanted. -/
structure Case where
  /-- The words loaded into memory. -/
  input : Array Word
  /-- The words to put out. -/
  expected : Array Word
  deriving DecidableEq, Repr

instance : Codec Case where
  writes c := Codec.writes c.input ++ Codec.writes c.expected
  decode := do
    let input : Array Word ← Codec.decode
    let expected : Array Word ← Codec.decode
    return ⟨input, expected⟩

namespace Score

/-- The next row of the table of common subsequences, for one more word `x` on the left. `above`
holds the row before from the cell over `ys` on, `diagonal` its cell before that one, and `left`
the last cell of the new row. -/
def nextCells (x : Word) : Nat → Nat → List Word → List Nat → List Nat
  | diagonal, left, y :: ys, up :: above =>
      let cell := if x = y then diagonal + 1 else max up left
      cell :: nextCells x up cell ys above
  | _, _, _, _ => []

/-- The row of the table for the words `xs` on the left: cell `j` is the length of the longest
common subsequence of `xs` and the first `j + 1` words of `ys`. -/
def row (ys xs : List Word) : List Nat :=
  xs.foldl (fun above x => nextCells x 0 0 ys above) (List.replicate ys.length 0)

/-- The length of the longest common subsequence. -/
def lcs (output expected : Array Word) : Nat :=
  (row expected.toList output.toList).getLastD 0

/-- Whether `ys` stands in a list in one run. -/
def hasRun (ys : List Word) : List Word → Bool
  | [] => ys.isEmpty
  | x :: xs => ys.isPrefixOf (x :: xs) || hasRun ys xs

/-- Whether the expected words stand in the output in one run. -/
def contains (output expected : Array Word) : Bool :=
  hasRun expected.toList output.toList

end Score

/-- The curriculum of boolean operations: the first input word selects exclusive or, or, and,
not, and the other words are its operands. -/
def booleanCurriculum : Array Case := #[
  ⟨#[0, 0, 0], #[0]⟩,
  ⟨#[0, 1, 0], #[1]⟩,
  ⟨#[0, 0, 1], #[1]⟩,
  ⟨#[0, 1, 1], #[0]⟩,
  ⟨#[1, 0, 0], #[0]⟩,
  ⟨#[1, 1, 0], #[1]⟩,
  ⟨#[1, 0, 1], #[1]⟩,
  ⟨#[1, 1, 1], #[1]⟩,
  ⟨#[2, 0, 0], #[0]⟩,
  ⟨#[2, 1, 0], #[0]⟩,
  ⟨#[2, 0, 1], #[0]⟩,
  ⟨#[2, 1, 1], #[1]⟩,
  ⟨#[3, 0], #[1]⟩,
  ⟨#[3, 1], #[0]⟩]

end BytecodeSearch
