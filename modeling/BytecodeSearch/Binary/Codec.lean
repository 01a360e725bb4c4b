import BytecodeSearch.Binary.Bytes
import BytecodeSearch.Hash.Sha3

/-!
# The binary format

Values are written as a sequence of pieces and read back from a list of bytes.

* Numbers have a fixed width and come low byte first.
* An array is its length in eight bytes, followed by its elements; a fixed-size vector is its
  elements alone; a record is its fields in order.

`Codec.writes` is the sequence of pieces; `Sink` is anything that accepts pieces in order: a
counter, a buffer, a hash. `Codec.decode` consumes bytes from the front of its input, and keeps
what it has consumed also when it fails.
-/

set_option autoImplicit false

namespace BytecodeSearch

/-! ## Sinks -/

/-- Something that bytes can be written to, piece by piece. -/
class Sink (σ : Type) where
  /-- Accepts one piece. -/
  write : σ → List UInt8 → σ

/-- A sink that only counts bytes. -/
structure ByteCount where
  /-- The number of bytes written so far. -/
  count : Nat
  deriving DecidableEq, Repr

instance : Sink ByteCount where
  write c piece := ⟨c.count + piece.length⟩

/-- A buffer keeps the bytes. -/
instance : Sink (Array UInt8) where
  write buffer piece := buffer ++ piece

/-- A hash absorbs the bytes. -/
instance : Sink Sha3.Hasher where
  write := Sha3.Hasher.update

/-! ## Decoders -/

/-- Why bytes do not decode. -/
inductive DecodeError where
  /-- The input ended too early. -/
  | unexpectedEnd
  /-- The bytes are not those of a value. -/
  | invalidValue
  /-- An array claims too many elements. -/
  | lengthTooLarge
  deriving DecidableEq, Repr

/-- The text of a decoding error. -/
def DecodeError.message : DecodeError → String
  | .unexpectedEnd => "unexpected end of input"
  | .invalidValue => "invalid value"
  | .lengthTooLarge => "length prefix too large"

/-- A decoder consumes bytes from the front of its input. After an error the input is what was
not consumed before it. -/
abbrev Decoder := EStateM DecodeError (List UInt8)

namespace Decoder

/-- Consumes `n` bytes, or nothing if there are fewer. -/
def take (n : Nat) : Decoder (List UInt8) := fun input =>
  let bytes := input.take n
  if bytes.length = n then .ok bytes (input.drop n) else .error .unexpectedEnd input

/-- Reads `n` values in a row, behind those of `acc`. -/
def many {α : Type} (d : Decoder α) : Nat → Array α → Decoder (Array α)
  | 0, acc, input => .ok acc input
  | n + 1, acc, input =>
      match d input with
      | .ok x rest => many d n (acc.push x) rest
      | .error e rest => .error e rest

theorem size_many {α : Type} {d : Decoder α} {n : Nat} {acc xs : Array α}
    {input rest : List UInt8} (h : many d n acc input = .ok xs rest) :
    xs.size = acc.size + n := by
  induction n generalizing acc input with
  | zero =>
      simp only [many, EStateM.Result.ok.injEq] at h
      rw [← h.1, Nat.add_zero]
  | succ n ih =>
      simp only [many] at h
      split at h
      · rw [ih h, Array.size_push]
        omega
      · simp at h

end Decoder

/-! ## Codecs -/

/-- A type with a binary format. -/
class Codec (α : Type) where
  /-- The pieces a value is written as. -/
  writes : α → List (List UInt8)
  /-- Reads a value from the front of the input. -/
  decode : Decoder α

namespace Codec

/-- The most elements an array may claim when it is read. -/
def maxLength : Nat := 1 <<< 20

instance : Codec UInt8 where
  writes b := [[b]]
  decode := (fun bytes => UInt8.ofNat (LittleEndian.ofBytes bytes)) <$> Decoder.take 1

instance : Codec UInt16 where
  writes w := [LittleEndian.toBytes 2 w.toNat]
  decode := (fun bytes => UInt16.ofNat (LittleEndian.ofBytes bytes)) <$> Decoder.take 2

instance : Codec UInt32 where
  writes w := [LittleEndian.toBytes 4 w.toNat]
  decode := (fun bytes => UInt32.ofNat (LittleEndian.ofBytes bytes)) <$> Decoder.take 4

instance : Codec UInt64 where
  writes w := [LittleEndian.toBytes 8 w.toNat]
  decode := (fun bytes => UInt64.ofNat (LittleEndian.ofBytes bytes)) <$> Decoder.take 8

instance {α : Type} [Codec α] : Codec (Array α) where
  writes xs := writes (UInt64.ofNat xs.size) ++ xs.toList.flatMap writes
  decode := do
    let length : UInt64 ← decode
    if length.toNat > maxLength then throw .lengthTooLarge
    else Decoder.many decode length.toNat #[]

instance {α : Type} [Codec α] {n : Nat} : Codec (Vector α n) where
  writes xs := xs.toList.flatMap writes
  decode := fun input =>
    match h : Decoder.many decode n #[] input with
    | .ok xs rest => .ok ⟨xs, by simpa using Decoder.size_many h⟩ rest
    | .error e rest => .error e rest

variable {α : Type} [Codec α]

/-- Writes a value to a sink. -/
def encodeInto {σ : Type} [Sink σ] (sink : σ) (v : α) : σ :=
  (writes v).foldl Sink.write sink

/-- The number of bytes of a value. -/
def size (v : α) : Nat := (encodeInto (⟨0⟩ : ByteCount) v).count

/-- The bytes of a value. -/
def toBytes (v : α) : List UInt8 := (encodeInto (#[] : Array UInt8) v).toList

/-- The SHA3-256 digest of the bytes of a value. -/
def digest (v : α) : List UInt8 := (encodeInto Sha3.Hasher.start v).finish

/-- Reads a value from bytes, all of which have to be used. -/
def ofBytes (bytes : List UInt8) : Except DecodeError α :=
  match decode (α := α) bytes with
  | .ok v [] => .ok v
  | .ok _ (_ :: _) => .error .invalidValue
  | .error e _ => .error e

end Codec

end BytecodeSearch
