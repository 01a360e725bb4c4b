import BytecodeSearch.Random.Generator

/-!
# The replaying generator

A generator that hands out the words of a list, and behind the list goes on with splitmix64 from
state zero. A word of 32 bits is the low half of the word it uses up.
-/

set_option autoImplicit false

namespace BytecodeSearch

/-- Words to hand out, and the state of the generator behind them. -/
structure Replay where
  /-- The words still to come. -/
  script : List UInt64
  /-- The state behind the script. -/
  state : UInt64

namespace Replay

/-- The generator that starts with these words. -/
def ofScript (script : List UInt64) : Replay := ⟨script, 0⟩

/-- The word of splitmix64 at a state. -/
def splitMix (state : UInt64) : UInt64 :=
  let z := (state ^^^ (state >>> 30)) * 0xBF58476D1CE4E5B9
  let z := (z ^^^ (z >>> 27)) * 0x94D049BB133111EB
  z ^^^ (z >>> 31)

/-- The next word. -/
def next (g : Replay) : UInt64 × Replay :=
  match g.script with
  | w :: rest => (w, { g with script := rest })
  | [] =>
      let state := g.state + 0x9E3779B97F4A7C15
      (splitMix state, { g with state := state })

instance : Generator Replay where
  next32 g :=
    let (w, g) := g.next
    (w.toUInt32, g)
  next64 := next

end Replay

end BytecodeSearch
