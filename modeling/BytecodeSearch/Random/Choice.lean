import BytecodeSearch.Random.Generator

/-!
# Random choices

A `Range` is a finite set of numbers `0, 1, …, size - 1` with a way to draw from it: a random
word is scaled to the range by its high product, and refused if its low product lies in the part
that would make some numbers likelier than others.

A `Choice` is a computation that draws from ranges, as a tree: it is done, or it draws a number
and goes on with it. The tree can be run on a generator, and one can ask which results it has
when every draw may give any number of its range.

A draw that is refused again and again is given up after `patience` refusals and gives zero, so
every run ends.
-/

set_option autoImplicit false

namespace BytecodeSearch

/-- A set of numbers to draw from. -/
inductive Range where
  /-- The numbers below `n`, by words of 32 bits. -/
  | small (n : Nat)
  /-- The numbers of sixteen bits: the low half of a word of 32 bits. -/
  | word
  /-- The numbers below `n`, by words of 64 bits. -/
  | large (n : Nat)
  deriving DecidableEq, Repr

/-- How often a draw may be refused. -/
def patience : Nat := 1 <<< 32

namespace Range

/-- How many numbers there are. -/
def size : Range → Nat
  | small n => n
  | word => 1 <<< 16
  | large n => n

/-- Scales a random word `v` of `bits` bits to the numbers below `n`. The word is refused if its
low product is past `zone`. -/
def scale (bits n zone v : Nat) : Option Nat :=
  if v * n % (1 <<< bits) ≤ zone then some (v * n / (1 <<< bits)) else none

/-- The largest low product for a small range: the words past the last multiple of `n` are
refused. -/
def smallZone (n : Nat) : Nat := (1 <<< 32) - 1 - ((1 <<< 32) - n) % n

/-- The largest low product for a large range: as many multiples of `n` as a power of two. -/
def largeZone (n : Nat) : Nat := n <<< (63 - n.log2) - 1

/-- Draws one random word, and the number it gives unless it is refused. -/
def attempt {ρ : Type} [Generator ρ] (r : Range) (g : ρ) : Option Nat × ρ :=
  match r with
  | small n =>
      let (v, g) := Generator.next32 g
      (scale 32 n (smallZone n) v.toNat, g)
  | word =>
      let (v, g) := Generator.next32 g
      (some (v.toNat % (1 <<< 16)), g)
  | large n =>
      let (v, g) := Generator.next64 g
      (scale 64 n (largeZone n) v.toNat, g)

/-- Draws until a word is not refused, at most so many times. -/
def sample {ρ : Type} [Generator ρ] (r : Range) : Nat → ρ → Nat × ρ
  | 0, g => (0, g)
  | tries + 1, g =>
      match r.attempt g with
      | (some v, g) => (v, g)
      | (none, g) => sample r tries g

end Range

/-- A computation that draws numbers. -/
inductive Choice (α : Type) where
  /-- The result. -/
  | done (a : α)
  /-- Draws a number and goes on with it. -/
  | draw (r : Range) (next : Nat → Choice α)

namespace Choice

variable {α β : Type}

/-- Goes on with the result of a computation. -/
def bind (c : Choice α) (f : α → Choice β) : Choice β :=
  match c with
  | done a => f a
  | draw r next => draw r fun v => (next v).bind f

instance : Monad Choice where
  pure := done
  bind := bind

/-- A number drawn from a range. -/
def number (r : Range) : Choice Nat := draw r done

/-- Draws from a generator until the result is there. -/
def run {ρ : Type} [Generator ρ] : Choice α → ρ → α × ρ
  | done a, g => (a, g)
  | draw r next, g =>
      let (v, g) := r.sample patience g
      (next v).run g

/-- Whether a computation may have a result when every draw gives some number of its range. -/
def Possible : Choice α → α → Prop
  | done b, a => a = b
  | draw r next, a => ∃ v < r.size, (next v).Possible a

theorem possible_bind {c : Choice α} {f : α → Choice β} {b : β} :
    (c.bind f).Possible b ↔ ∃ a, c.Possible a ∧ (f a).Possible b := by
  induction c with
  | done a => simp [bind, Possible]
  | draw r next ih =>
      simp only [bind, Possible, ih]
      constructor
      · rintro ⟨v, hv, a, ha, hb⟩
        exact ⟨a, ⟨v, hv, ha⟩, hb⟩
      · rintro ⟨a, ⟨v, hv, ha⟩, hb⟩
        exact ⟨v, hv, a, ha, hb⟩

end Choice

end BytecodeSearch
