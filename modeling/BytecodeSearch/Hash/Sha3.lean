/-!
# SHA3-256

The sponge of FIPS 202 with rate 136 bytes and the permutation on 25 lanes of 64 bits. The lane
at column `x` and row `y` stands at place `x + 5 * y`.

A `Hasher` takes bytes one at a time, so hashing in pieces and hashing the concatenation are the
same fold (`Hasher.update_append`).
-/

set_option autoImplicit false

namespace BytecodeSearch.Sha3

/-- The state of the permutation: five rows of five lanes. -/
abbrev Lanes := Vector UInt64 25

/-- The lane at column `x` and row `y`, both taken modulo five. -/
def Lanes.lane (s : Lanes) (x y : Nat) : UInt64 :=
  s[x % 5 + 5 * (y % 5)]

/-- The state with a given lane at each column and row. -/
def Lanes.tabulate (f : Nat → Nat → UInt64) : Lanes :=
  Vector.ofFn fun i => f (i.val % 5) (i.val / 5)

/-- Rotates a lane towards its high bits by `n < 64` places. -/
def rotl (a : UInt64) (n : UInt64) : UInt64 :=
  if n = 0 then a else (a <<< n) ||| (a >>> (64 - n))

/-- The rotation of each lane in the step ρ. -/
def rotations : Vector UInt64 25 := #v[
  0, 1, 62, 28, 27,
  36, 44, 6, 55, 20,
  3, 10, 43, 25, 39,
  41, 45, 15, 21, 8,
  18, 2, 61, 56, 14]

/-- The constant each round adds to the first lane in the step ι. -/
def roundConstants : List UInt64 := [
  0x0000000000000001, 0x0000000000008082, 0x800000000000808a, 0x8000000080008000,
  0x000000000000808b, 0x0000000080000001, 0x8000000080008081, 0x8000000000008009,
  0x000000000000008a, 0x0000000000000088, 0x0000000080008009, 0x000000008000000a,
  0x000000008000808b, 0x800000000000008b, 0x8000000000008089, 0x8000000000008003,
  0x8000000000008002, 0x8000000000000080, 0x000000000000800a, 0x800000008000000a,
  0x8000000080008081, 0x8000000000008080, 0x0000000080000001, 0x8000000080008008]

/-- The step θ: each lane is mixed with the parities of two neighbouring columns. -/
def theta (s : Lanes) : Lanes :=
  let parity := Vector.ofFn fun x : Fin 5 =>
    s.lane x 0 ^^^ s.lane x 1 ^^^ s.lane x 2 ^^^ s.lane x 3 ^^^ s.lane x 4
  let mix := Vector.ofFn fun x : Fin 5 => parity[(x + 4 : Fin 5)] ^^^ rotl parity[(x + 1 : Fin 5)] 1
  Lanes.tabulate fun x y => s.lane x y ^^^ mix[x % 5]

/-- The step ρ: each lane is rotated by its own amount. -/
def rho (s : Lanes) : Lanes :=
  Vector.zipWith rotl s rotations

/-- The step π: the lanes change places. -/
def pi (s : Lanes) : Lanes :=
  Lanes.tabulate fun x y => s.lane (x + 3 * y) x

/-- The step χ: each lane is mixed with the next two of its row. -/
def chi (s : Lanes) : Lanes :=
  Lanes.tabulate fun x y => s.lane x y ^^^ ((~~~ s.lane (x + 1) y) &&& s.lane (x + 2) y)

/-- One round of the permutation. -/
def round (s : Lanes) (constant : UInt64) : Lanes :=
  let t := chi (pi (rho (theta s)))
  t.set 0 (t[0] ^^^ constant)

/-- The permutation: twenty-four rounds. -/
def permute (s : Lanes) : Lanes :=
  roundConstants.foldl round s

/-- The number of bytes absorbed between two permutations. -/
def rate : Nat := 136

/-- Adds a byte to the state at byte place `pos`. -/
def addByte (s : Lanes) (pos : Nat) (b : UInt8) : Lanes :=
  let i := Fin.ofNat 25 (pos / 8)
  s.set i (s[i] ^^^ (b.toUInt64 <<< UInt64.ofNat (8 * (pos % 8))))

/-- A hash in progress. -/
structure Hasher where
  /-- The state of the permutation. -/
  lanes : Lanes
  /-- How many bytes of the current block are absorbed. -/
  filled : Nat

namespace Hasher

/-- The hash of nothing yet. -/
def start : Hasher := ⟨Vector.replicate 25 0, 0⟩

/-- Absorbs one byte. -/
def absorb (h : Hasher) (b : UInt8) : Hasher :=
  let lanes := addByte h.lanes h.filled b
  if h.filled + 1 = rate then ⟨permute lanes, 0⟩ else ⟨lanes, h.filled + 1⟩

/-- Absorbs bytes in order. -/
def update (h : Hasher) (bytes : List UInt8) : Hasher := bytes.foldl absorb h

/-- Pads the last block and reads the digest: 32 bytes, each lane from its low byte on. -/
def finish (h : Hasher) : List UInt8 :=
  let lanes := permute (addByte (addByte h.lanes h.filled 0x06) (rate - 1) 0x80)
  (List.range 32).map fun i =>
    (lanes[Fin.ofNat 25 (i / 8)] >>> UInt64.ofNat (8 * (i % 8))).toUInt8

/-- Hashing in pieces is hashing the concatenation. -/
theorem update_append (h : Hasher) (a b : List UInt8) :
    h.update (a ++ b) = (h.update a).update b := by
  simp [update]

end Hasher

/-- The SHA3-256 digest of a byte string. -/
def digest (bytes : List UInt8) : List UInt8 := (Hasher.start.update bytes).finish

end BytecodeSearch.Sha3
