import BytecodeSearch.Proofs.Program.Validity
import BytecodeSearch.Proofs.Text.Numerals
import BytecodeSearch.Search.Settings
import Mathlib

/-!
# Settings from variables

Each variable is read by itself. It gives its field a number, or leaves the default if it is not set
(`Variable.Accepts`), or it is refused for its text or for its number (`Variable.Refuses`); one of these it
is, and no two (`Variable.read_eq_ok_iff`, `Variable.read_eq_error_iff`). The settings put together what
the variables give, and if any is refused, it is the first one that is reported (`exact_overrides`).
-/

set_option autoImplicit false

namespace BytecodeSearch

namespace Settings

/-! ## Variables -/

/-- A variable that sets a number. -/
structure Variable where
  /-- The name of the variable. -/
  key : String
  /-- The width of its field. -/
  bits : Nat
  /-- The numbers that the field allows. -/
  allowed : Nat → Bool := fun _ => true

namespace Variable

/-- Any memory size of sixty-four bits. -/
def memory : Variable := { key := memoryKey, bits := 64 }

/-- One to eight registers. -/
def registers : Variable :=
  { key := registersKey, bits := 8, allowed := fun n => 1 ≤ n && n ≤ 8 }

/-- Any mutation speed of thirty-two bits but zero. -/
def speed : Variable := { key := speedKey, bits := 32, allowed := fun n => 1 ≤ n }

/-- Any number of attempts of thirty-two bits. -/
def chunk : Variable := { key := chunkKey, bits := 32 }

/-- Any seed of sixty-four bits. -/
def seed : Variable := { key := seedKey, bits := 64 }

/-- The variables in the order they are read in. -/
def inOrder : List Variable := [memory, registers, speed, chunk, seed]

variable {v : Variable} {lookup : String → Option String}

/-- The number a variable gives, or none if it is not set. -/
inductive Accepts (v : Variable) (lookup : String → Option String) : Option Nat → Prop where
  /-- The variable is not set. -/
  | unset (hkey : lookup v.key = none) : v.Accepts lookup none
  /-- The variable is set to a number that its field can hold and allows. -/
  | set {value : String} {n : Nat} (hkey : lookup v.key = some value)
      (hvalue : Numeral.IsPadded n value.toList) (hbits : n < 2 ^ v.bits)
      (hallowed : v.allowed n = true) : v.Accepts lookup (some n)

/-- The refusal of a variable. -/
inductive Refuses (v : Variable) (lookup : String → Option String) : SettingsError → Prop where
  /-- The variable is set to a text that is no number its field can hold. -/
  | unparsable {value : String} (hkey : lookup v.key = some value)
      (hvalue : ∀ n, Numeral.IsPadded n value.toList → ¬ n < 2 ^ v.bits) :
      v.Refuses lookup (.unparsable v.key value)
  /-- The variable is set to a number that its field does not allow. -/
  | outOfRange {value : String} {n : Nat} (hkey : lookup v.key = some value)
      (hvalue : Numeral.IsPadded n value.toList) (hbits : n < 2 ^ v.bits)
      (hallowed : v.allowed n = false) : v.Refuses lookup (.outOfRange v.key n)

/-- Reads a variable and checks its number. -/
def read (v : Variable) (lookup : String → Option String) : Except SettingsError (Option Nat) :=
  readNumber lookup v.key v.bits >>= allowing v.allowed v.key

theorem readNumber_of_set {key value : String} {bits n : Nat} (hkey : lookup key = some value)
    (hvalue : Numeral.IsPadded n value.toList) (hbits : n < 2 ^ bits) :
    readNumber lookup key bits = .ok (some n) := by
  have hread : Numeral.read? (1 <<< bits) (Text.trim value.toList) = some n := by
    rw [Nat.one_shiftLeft]
    exact Numeral.read?_trim_eq_some_iff.mpr ⟨hvalue, hbits⟩
  rw [readNumber, hkey]
  simp only [hread]

theorem readNumber_of_unparsable {key value : String} {bits : Nat} (hkey : lookup key = some value)
    (hvalue : ∀ n, Numeral.IsPadded n value.toList → ¬ n < 2 ^ bits) :
    readNumber lookup key bits = .error (.unparsable key value) := by
  have hread : Numeral.read? (1 <<< bits) (Text.trim value.toList) = none := by
    refine Option.eq_none_iff_forall_ne_some.mpr fun n hn => ?_
    rw [Nat.one_shiftLeft] at hn
    obtain ⟨hpadded, hbits⟩ := Numeral.read?_trim_eq_some_iff.mp hn
    exact hvalue n hpadded hbits
  rw [readNumber, hkey]
  simp only [hread]

theorem Accepts.read {n : Option Nat} (h : v.Accepts lookup n) : v.read lookup = .ok n := by
  cases h with
  | unset hkey =>
      rw [Variable.read, readNumber, hkey]
      rfl
  | set hkey hvalue hbits hallowed =>
      rw [Variable.read, readNumber_of_set hkey hvalue hbits]
      exact if_pos hallowed

theorem Refuses.read {e : SettingsError} (h : v.Refuses lookup e) : v.read lookup = .error e := by
  cases h with
  | unparsable hkey hvalue =>
      rw [Variable.read, readNumber_of_unparsable hkey hvalue]
      rfl
  | outOfRange hkey hvalue hbits hallowed =>
      rw [Variable.read, readNumber_of_set hkey hvalue hbits]
      exact if_neg (by rw [hallowed]; decide)

/-- A variable is accepted or refused, whatever it is set to. -/
theorem accepts_or_refuses (v : Variable) (lookup : String → Option String) :
    (∃ n, v.Accepts lookup n) ∨ ∃ e, v.Refuses lookup e := by
  cases hkey : lookup v.key with
  | none => exact .inl ⟨none, .unset hkey⟩
  | some value =>
      by_cases hvalue : ∃ n, Numeral.IsPadded n value.toList ∧ n < 2 ^ v.bits
      · obtain ⟨n, hpadded, hbits⟩ := hvalue
        cases hallowed : v.allowed n with
        | true => exact .inl ⟨some n, .set hkey hpadded hbits hallowed⟩
        | false => exact .inr ⟨_, .outOfRange hkey hpadded hbits hallowed⟩
      · exact .inr ⟨_, .unparsable hkey fun n hpadded hbits => hvalue ⟨n, hpadded, hbits⟩⟩

theorem read_eq_ok_iff {n : Option Nat} : v.read lookup = .ok n ↔ v.Accepts lookup n := by
  constructor
  · intro h
    rcases v.accepts_or_refuses lookup with ⟨m, hm⟩ | ⟨e, he⟩
    · obtain rfl := Except.ok.inj (hm.read.symm.trans h)
      exact hm
    · cases he.read.symm.trans h
  · exact Accepts.read

theorem read_eq_error_iff {e : SettingsError} : v.read lookup = .error e ↔ v.Refuses lookup e := by
  constructor
  · intro h
    rcases v.accepts_or_refuses lookup with ⟨n, hn⟩ | ⟨e', he⟩
    · cases hn.read.symm.trans h
    · obtain rfl := Except.error.inj (he.read.symm.trans h)
      exact he
  · exact Refuses.read

/-- What it is for a variable to be accepted: its text, if it is set, is the numeral of a number that its
field can hold and allows. -/
theorem exists_accepts_iff : (∃ n, v.Accepts lookup n) ↔ ∀ value, lookup v.key = some value →
    ∃ n, Numeral.IsPadded n value.toList ∧ n < 2 ^ v.bits ∧ v.allowed n = true := by
  constructor
  · rintro ⟨_, hkey | ⟨hkey, hvalue, hbits, hallowed⟩⟩ value hset
    · cases hkey.symm.trans hset
    · obtain rfl := Option.some.inj (hkey.symm.trans hset)
      exact ⟨_, hvalue, hbits, hallowed⟩
  · intro h
    cases hkey : lookup v.key with
    | none => exact ⟨none, .unset hkey⟩
    | some value =>
        obtain ⟨n, hvalue, hbits, hallowed⟩ := h value hkey
        exact ⟨some n, .set hkey hvalue hbits hallowed⟩

end Variable

/-! ## All variables -/

/-- The settings of the numbers that the variables give, in their order. -/
def ofNumbers : List (Option Nat) → Settings
  | [memory, registers, speed, chunk, seed] =>
      { memorySize := memory.getD 100
        registerCount := registers.getD 8
        mutationSpeed := speed.getD 1
        chunkSize := chunk.getD 50000
        seed := seed }
  | _ => {}

theorem read_of_allowed {v : Variable} {lookup : String → Option String}
    (h : v.allowed = fun _ => true) : v.read lookup = readNumber lookup v.key v.bits := by
  rw [Variable.read, h]
  cases readNumber lookup v.key v.bits with
  | ok n => cases n <;> rfl
  | error e => rfl

/-- Settings are read by reading the variables one after the other. -/
theorem ofLookup_eq_mapM (lookup : String → Option String) :
    ofLookup lookup = Variable.inOrder.mapM (fun v => v.read lookup) >>= fun ns => pure (ofNumbers ns) := by
  have hmemory : Variable.memory.read lookup = readNumber lookup memoryKey 64 := read_of_allowed rfl
  have hchunk : Variable.chunk.read lookup = readNumber lookup chunkKey 32 := read_of_allowed rfl
  have hseed : Variable.seed.read lookup = readNumber lookup seedKey 64 := read_of_allowed rfl
  simp only [Variable.inOrder, List.mapM_cons, List.mapM_nil, bind_assoc, pure_bind, hmemory, hchunk, hseed]
  simp only [Variable.read, bind_assoc]
  rfl

variable {lookup : String → Option String}

/-- Settings are read if the variables are accepted, and each field is the number of its variable, or its
default. -/
theorem ofLookup_eq_ok_iff {s : Settings} : ofLookup lookup = .ok s ↔
    ∃ memory registers speed chunk seed : Option Nat,
      Variable.memory.Accepts lookup memory ∧ Variable.registers.Accepts lookup registers ∧
      Variable.speed.Accepts lookup speed ∧ Variable.chunk.Accepts lookup chunk ∧
      Variable.seed.Accepts lookup seed ∧
      s = { memorySize := memory.getD 100
            registerCount := registers.getD 8
            mutationSpeed := speed.getD 1
            chunkSize := chunk.getD 50000
            seed := seed } := by
  simp only [ofLookup_eq_mapM, Variable.inOrder, List.mapM_cons, List.mapM_nil, bind_assoc, pure_bind,
    bind_eq_ok_iff, Variable.read_eq_ok_iff]
  constructor
  · rintro ⟨memory, hmemory, registers, hregisters, speed, hspeed, chunk, hchunk, seed, hseed, h⟩
    exact ⟨memory, registers, speed, chunk, seed, hmemory, hregisters, hspeed, hchunk, hseed,
      (Except.ok.inj h).symm⟩
  · rintro ⟨memory, registers, speed, chunk, seed, hmemory, hregisters, hspeed, hchunk, hseed, rfl⟩
    exact ⟨memory, hmemory, registers, hregisters, speed, hspeed, chunk, hchunk, seed, hseed, rfl⟩

theorem exists_ofLookup_eq_ok_iff : (∃ s, ofLookup lookup = .ok s) ↔
    ∀ v ∈ Variable.inOrder, ∃ n, v.Accepts lookup n := by
  simp only [← Variable.read_eq_ok_iff, ← exists_mapM_eq_ok_iff, ofLookup_eq_mapM, bind_eq_ok_iff]
  constructor
  · rintro ⟨s, ns, hns, -⟩
    exact ⟨ns, hns⟩
  · rintro ⟨ns, hns⟩
    exact ⟨ofNumbers ns, ns, hns, rfl⟩

/-- The first variable that is refused is reported. -/
theorem ofLookup_eq_error_iff {e : SettingsError} : ofLookup lookup = .error e ↔
    ∃ before v after, Variable.inOrder = before ++ v :: after ∧
      (∀ w ∈ before, ∃ n, w.Accepts lookup n) ∧ v.Refuses lookup e := by
  simp only [← Variable.read_eq_ok_iff, ← Variable.read_eq_error_iff, ← mapM_eq_error_iff,
    ofLookup_eq_mapM, bind_eq_error_iff]
  refine or_iff_left ?_
  rintro ⟨ns, -, h⟩
  cases h

/-! ## What settings are allowed -/

/-- What every field allows. -/
structure InRange (s : Settings) : Prop where
  memorySize : s.memorySize < 2 ^ 64
  registerCount : 1 ≤ s.registerCount ∧ s.registerCount ≤ 8
  mutationSpeed : 1 ≤ s.mutationSpeed ∧ s.mutationSpeed < 2 ^ 32
  chunkSize : s.chunkSize < 2 ^ 32
  seed : ∀ n ∈ s.seed, n < 2 ^ 64

/-- A number that is given fits its field and is allowed, and so is a default if it passes the same
check. -/
theorem Variable.Accepts.getD {v : Variable} {n : Option Nat} {d : Nat} (h : v.Accepts lookup n)
    (hbits : d < 2 ^ v.bits) (hallowed : v.allowed d = true) :
    n.getD d < 2 ^ v.bits ∧ v.allowed (n.getD d) = true := by
  cases h with
  | unset hkey => exact ⟨hbits, hallowed⟩
  | set hkey hvalue hfits hpasses => exact ⟨hfits, hpasses⟩

/-- Whatever the variables are, the settings that are read from them are in range; the defaults are. -/
theorem inRange_of_ofLookup {s : Settings} (h : ofLookup lookup = .ok s) : s.InRange := by
  obtain ⟨memory, registers, speed, chunk, seed, hmemory, hregisters, hspeed, hchunk, hseed, rfl⟩ :=
    ofLookup_eq_ok_iff.mp h
  obtain ⟨-, hcount⟩ := hregisters.getD (d := 8) (by decide) (by decide)
  obtain ⟨hfits, hpositive⟩ := hspeed.getD (d := 1) (by decide) (by decide)
  constructor
  · exact (hmemory.getD (d := 100) (by decide) (by decide)).1
  · simpa [Variable.registers] using hcount
  · exact ⟨by simpa [Variable.speed] using hpositive, hfits⟩
  · exact (hchunk.getD (d := 50000) (by decide) (by decide)).1
  · rintro n hn
    cases hseed with
    | unset hkey => cases hn
    | set hkey hvalue hbits hallowed =>
        obtain rfl := Option.some.inj hn
        exact hbits

/-- Settings that are read use as many registers as they say. -/
theorem registers_of_ofLookup {s : Settings} (h : ofLookup lookup = .ok s) :
    s.registers = s.registerCount := by
  obtain ⟨hpositive, hle⟩ := (inRange_of_ofLookup h).registerCount
  rw [Settings.registers, BytecodeSearch.registerCount]
  omega

/-! ## All lookups -/

/-- A number that is out of range is shown by its canonical numeral. -/
theorem message_outOfRange (key : String) (n : Nat) : ∃ digits, Numeral.IsCanonical n digits ∧
    (SettingsError.outOfRange key n).message =
      key ++ ": " ++ String.ofList digits ++ " is out of range" :=
  ⟨Nat.toDigits 10 n, Numeral.isCanonical_toDigits n, rfl⟩

/-- **Settings are what the variables say.** Settings are read exactly if every variable that is set holds,
with any white space around it, the numeral of a number that fits its field and that the field allows; and
then each field is the number of its variable, or the default if the variable is not set, whatever the
others are. Otherwise the first variable in the order that is refused is reported: with its text as it is
if it holds no number that fits its field, and with the number if the field does not allow it, which is
shown by its canonical numeral. -/
theorem exact_overrides :
    Variable.inOrder = [
      { key := "EVO_MEMORY_SIZE", bits := 64 },
      { key := "EVO_REGISTERS", bits := 8, allowed := fun n => 1 ≤ n && n ≤ 8 },
      { key := "EVO_MUTATION_SPEED", bits := 32, allowed := fun n => 1 ≤ n },
      { key := "EVO_CHUNK_SIZE", bits := 32 },
      { key := "EVO_SEED", bits := 64 }] ∧
    (∀ lookup : String → Option String,
      ((∃ s, ofLookup lookup = .ok s) ↔ ∀ v ∈ Variable.inOrder, ∀ value, lookup v.key = some value →
        ∃ n, Numeral.IsPadded n value.toList ∧ n < 2 ^ v.bits ∧ v.allowed n = true) ∧
      (∀ s, ofLookup lookup = .ok s ↔ ∃ memory registers speed chunk seed : Option Nat,
        Variable.memory.Accepts lookup memory ∧ Variable.registers.Accepts lookup registers ∧
        Variable.speed.Accepts lookup speed ∧ Variable.chunk.Accepts lookup chunk ∧
        Variable.seed.Accepts lookup seed ∧
        s = { memorySize := memory.getD 100
              registerCount := registers.getD 8
              mutationSpeed := speed.getD 1
              chunkSize := chunk.getD 50000
              seed := seed }) ∧
      ∀ e, ofLookup lookup = .error e ↔ ∃ before v after, Variable.inOrder = before ++ v :: after ∧
        (∀ w ∈ before, ∃ n, w.Accepts lookup n) ∧ v.Refuses lookup e) ∧
    ∀ key n, ∃ digits, Numeral.IsCanonical n digits ∧ (SettingsError.outOfRange key n).message =
      key ++ ": " ++ String.ofList digits ++ " is out of range" := by
  refine ⟨rfl, fun lookup => ⟨?_, fun s => ofLookup_eq_ok_iff, fun e => ofLookup_eq_error_iff⟩,
    message_outOfRange⟩
  rw [exists_ofLookup_eq_ok_iff]
  exact forall₂_congr fun v _ => Variable.exists_accepts_iff

/-- Three variables are set, one of them with a sign and zeros and one with white space around it. -/
def someSet (key : String) : Option String :=
  if key = "EVO_SEED" then some "\t42 "
  else if key = "EVO_REGISTERS" then some "+004"
  else if key = "EVO_CHUNK_SIZE" then some "0"
  else none

/-- The number of registers is out of range, and the mutation speed is no number. -/
def twoWrong (key : String) : Option String :=
  if key = "EVO_REGISTERS" then some " 009"
  else if key = "EVO_MUTATION_SPEED" then some " fast "
  else none

theorem exact_overrides_someSet :
    ofLookup someSet = .ok { registerCount := 4, chunkSize := 0, seed := some 42 } ∧
    ofLookup twoWrong = .error (.outOfRange "EVO_REGISTERS" 9) := by
  obtain ⟨-, hlookups, -⟩ := exact_overrides
  constructor
  · obtain ⟨-, hread, -⟩ := hlookups someSet
    have hregisters : someSet Variable.registers.key = some "+004" := by decide
    have hchunk : someSet Variable.chunk.key = some "0" := by decide
    have hseed : someSet Variable.seed.key = some "\t42 " := by decide
    exact (hread _).mpr ⟨none, some 4, none, some 0, some 42, .unset (by decide),
      .set hregisters (by decide) (by decide) (by decide), .unset (by decide),
      .set hchunk (by decide) (by decide) (by decide),
      .set hseed (by decide) (by decide) (by decide), rfl⟩
  · obtain ⟨-, -, hrefused⟩ := hlookups twoWrong
    have hmemory : Variable.memory.Accepts twoWrong none := .unset (by decide)
    have hregisters : twoWrong Variable.registers.key = some " 009" := by decide
    refine (hrefused _).mpr ⟨[Variable.memory], Variable.registers,
      [Variable.speed, Variable.chunk, Variable.seed], rfl, ?_,
      .outOfRange hregisters (by decide) (by decide) (by decide)⟩
    intro w hw
    obtain rfl := List.mem_singleton.mp hw
    exact ⟨none, hmemory⟩

end Settings

end BytecodeSearch
