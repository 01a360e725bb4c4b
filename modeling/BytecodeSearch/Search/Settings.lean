import BytecodeSearch.Isa.Slot
import BytecodeSearch.Text.Blank
import BytecodeSearch.Text.Numeral
import BytecodeSearch.Text.Quoted

/-!
# Settings of a search

The settings have defaults, and each may be set by a variable. A variable's value is a numeral
of the field's width, possibly with white space around it. The variables are read in a fixed
order, and the first one that is refused is reported.
-/

set_option autoImplicit false

namespace BytecodeSearch

/-- What can be tuned in a search. -/
structure Settings where
  /-- The number of words of data memory. -/
  memorySize : Nat := 100
  /-- The number of registers that edits use. -/
  registerCount : Nat := 8
  /-- How slowly programs grow. -/
  mutationSpeed : Nat := 1
  /-- The number of attempts in a chunk. -/
  chunkSize : Nat := 50000
  /-- The seed of the generator, if it is fixed. -/
  seed : Option Nat := none
  deriving DecidableEq, Repr

/-- Why a variable is refused. -/
inductive SettingsError where
  /-- The value is no numeral of the field's width. -/
  | unparsable (key value : String)
  /-- The value is a numeral that the field does not allow. -/
  | outOfRange (key : String) (value : Nat)
  deriving DecidableEq, Repr

namespace SettingsError

/-- The text of a refusal. -/
def message : SettingsError → String
  | unparsable key value => s!"{key}: cannot parse {Text.quote value}"
  | outOfRange key value => s!"{key}: {value} is out of range"

/-- The refusal with its parts by name. -/
def detail : SettingsError → String
  | unparsable key value =>
      "Unparsable \x7b key: " ++ Text.quote key ++ ", value: " ++ Text.quote value ++ " \x7d"
  | outOfRange key value =>
      "OutOfRange \x7b key: " ++ Text.quote key ++ ", value: " ++ Text.quote (toString value) ++
        " \x7d"

end SettingsError

namespace Settings

/-- The variable for the memory size. -/
def memoryKey : String := "EVO_MEMORY_SIZE"

/-- The variable for the number of registers. -/
def registersKey : String := "EVO_REGISTERS"

/-- The variable for the mutation speed. -/
def speedKey : String := "EVO_MUTATION_SPEED"

/-- The variable for the chunk size. -/
def chunkKey : String := "EVO_CHUNK_SIZE"

/-- The variable for the seed. -/
def seedKey : String := "EVO_SEED"

/-- The number a variable is set to, which has to fit `bits` bits; `none` if it is not set. -/
def readNumber (lookup : String → Option String) (key : String) (bits : Nat) :
    Except SettingsError (Option Nat) :=
  match lookup key with
  | none => .ok none
  | some value =>
      match Numeral.read? (1 <<< bits) (Text.trim value.toList) with
      | some n => .ok (some n)
      | none => .error (.unparsable key value)

/-- Refuses a number that a field does not allow. -/
def allowing (allowed : Nat → Bool) (key : String) (n : Option Nat) :
    Except SettingsError (Option Nat) :=
  match n with
  | some v => if allowed v then .ok n else .error (.outOfRange key v)
  | none => .ok n

/-- The defaults with the variables that are set put in their places. -/
def ofLookup (lookup : String → Option String) : Except SettingsError Settings := do
  let memory ← readNumber lookup memoryKey 64
  let registers ← readNumber lookup registersKey 8
  let registers ← allowing (fun n => 1 ≤ n && n ≤ BytecodeSearch.registerCount) registersKey registers
  let speed ← readNumber lookup speedKey 32
  let speed ← allowing (fun n => 1 ≤ n) speedKey speed
  let chunk ← readNumber lookup chunkKey 32
  let seed ← readNumber lookup seedKey 64
  let defaults : Settings := {}
  return {
    memorySize := memory.getD defaults.memorySize
    registerCount := registers.getD defaults.registerCount
    mutationSpeed := speed.getD defaults.mutationSpeed
    chunkSize := chunk.getD defaults.chunkSize
    seed := seed }

/-- The settings with a fixed seed. -/
def withSeed (s : Settings) (seed : Nat) : Settings := { s with seed := some seed }

/-- The number of registers that edits use: at least one and at most all. -/
def registers (s : Settings) : Nat := max 1 (min s.registerCount BytecodeSearch.registerCount)

end Settings

end BytecodeSearch
