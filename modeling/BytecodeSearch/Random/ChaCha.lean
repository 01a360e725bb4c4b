import BytecodeSearch.Random.Generator

/-!
# The ChaCha generator

The key stream of ChaCha with twelve rounds, a block counter of 64 bits that starts at zero and
stream number zero. The generator hands out the words of the stream in order; a word of 64 bits
is two of them, the low half first. The key is spread from a seed of 64 bits.
-/

set_option autoImplicit false

namespace BytecodeSearch.ChaCha

/-- The words of a block. -/
abbrev Block := Vector UInt32 16

/-- Rotates a word towards its high bits by `n` places, `0 < n < 32`. -/
def rotl (a n : UInt32) : UInt32 := (a <<< n) ||| (a >>> (32 - n))

/-- The quarter round on four words of a block. -/
def quarterRound (s : Block) (a b c d : Fin 16) : Block :=
  let s := s.set a (s[a] + s[b])
  let s := s.set d (rotl (s[d] ^^^ s[a]) 16)
  let s := s.set c (s[c] + s[d])
  let s := s.set b (rotl (s[b] ^^^ s[c]) 12)
  let s := s.set a (s[a] + s[b])
  let s := s.set d (rotl (s[d] ^^^ s[a]) 8)
  let s := s.set c (s[c] + s[d])
  s.set b (rotl (s[b] ^^^ s[c]) 7)

/-- Two rounds: one over the columns of the block and one over its diagonals. -/
def doubleRound (s : Block) : Block :=
  let s := quarterRound s 0 4 8 12
  let s := quarterRound s 1 5 9 13
  let s := quarterRound s 2 6 10 14
  let s := quarterRound s 3 7 11 15
  let s := quarterRound s 0 5 10 15
  let s := quarterRound s 1 6 11 12
  let s := quarterRound s 2 7 8 13
  quarterRound s 3 4 9 14

/-- The block of the key stream with this number. -/
def streamBlock (key : Vector UInt32 8) (counter : UInt64) : Block :=
  let initial : Block := #v[
    0x61707865, 0x3320646e, 0x79622d32, 0x6b206574,
    key[0], key[1], key[2], key[3], key[4], key[5], key[6], key[7],
    counter.toUInt32, (counter >>> 32).toUInt32, 0, 0]
  let mixed := (List.range 6).foldl (fun s _ => doubleRound s) initial
  Vector.zipWith (· + ·) mixed initial

/-- One step of the linear congruential generator that spreads a seed. -/
def spread (state : UInt64) : UInt64 := state * 6364136223846793005 + 11634580027462260723

/-- The key word made of a state of the seed generator: its high bits, folded and rotated. -/
def keyWord (state : UInt64) : UInt32 :=
  let folded := (((state >>> 18) ^^^ state) >>> 27).toUInt32
  let n := (state >>> 59).toUInt32
  if n = 0 then folded else (folded >>> n) ||| (folded <<< (32 - n))

/-- The key of a seed. -/
def keyOfSeed (seed : UInt64) : Vector UInt32 8 :=
  Vector.ofFn fun i => keyWord (Nat.repeat spread (i.val + 1) seed)

end ChaCha

/-- A place in the key stream of a seed. -/
structure ChaCha where
  /-- The key. -/
  key : Vector UInt32 8
  /-- The number of the next block. -/
  counter : UInt64
  /-- The block that words are taken from. -/
  block : ChaCha.Block
  /-- How many words of it are taken. -/
  taken : Nat

namespace ChaCha

/-- The start of the key stream of a seed. -/
def ofSeed (seed : UInt64) : ChaCha := ⟨keyOfSeed seed, 0, Vector.replicate 16 0, 16⟩

/-- The next word of the key stream. -/
def next (g : ChaCha) : UInt32 × ChaCha :=
  if h : g.taken < 16 then (g.block[g.taken], { g with taken := g.taken + 1 })
  else
    let fresh := streamBlock g.key g.counter
    (fresh[0], ⟨g.key, g.counter + 1, fresh, 1⟩)

instance : Generator ChaCha where
  next32 := next
  next64 g :=
    let (low, g) := g.next
    let (high, g) := g.next
    ((high.toUInt64 <<< 32) ||| low.toUInt64, g)

end ChaCha

end BytecodeSearch
