import BytecodeSearch.Proofs.Binary.Truncation

/-!
# What sinks are given

A value is written to a sink in pieces, and a sink cannot ask for other pieces: with a log of what it is
given (`Logged`) it ends as it does without one, and the log is the same for all sinks
(`encodeInto_logged`). A value is written by writing its parts to the sink one after the other, along the
format (`Codec.Traversal`), and the pieces of the whole are those of the parts
(`Traversal.eq_encodeInto`).

A sink is lawful if pieces in a row do to it what they do as one piece (`LawfulSink`), as counters,
buffers and hashes are. Such a sink ends as if it were given all bytes of the value at once
(`encodeInto_eq_write`). So a size is the number of the bytes, a buffer gets them behind what it holds, and
a digest is the hash of them (`sinks_agree`).
-/

set_option autoImplicit false

namespace BytecodeSearch

/-! ## Lawful sinks -/

/-- A sink that does not see where one piece ends and the next one begins. -/
class LawfulSink (σ : Type) [Sink σ] : Prop where
  write_nil : ∀ sink : σ, Sink.write sink [] = sink
  write_append : ∀ (sink : σ) (front back : List UInt8),
    Sink.write sink (front ++ back) = Sink.write (Sink.write sink front) back

instance : LawfulSink ByteCount where
  write_nil _ := rfl
  write_append count front back := by
    show (⟨count.count + (front ++ back).length⟩ : ByteCount) =
      ⟨count.count + front.length + back.length⟩
    rw [List.length_append, Nat.add_assoc]

instance : LawfulSink (Array UInt8) where
  write_nil _ := Array.appendList_nil
  write_append buffer front back := by
    show buffer ++ (front ++ back) = buffer ++ front ++ back
    exact Array.toList_inj.mp (by simp)

instance : LawfulSink Sha3.Hasher where
  write_nil _ := rfl
  write_append hasher front back := hasher.update_append front back

/-- A sink with a log of the pieces it is given. -/
structure Logged (σ : Type) where
  /-- The sink. -/
  sink : σ
  /-- The pieces so far. -/
  log : List (List UInt8)

instance {σ : Type} [Sink σ] : Sink (Logged σ) where
  write s piece := ⟨Sink.write s.sink piece, s.log ++ [piece]⟩

namespace Codec

variable {α β σ : Type} [Codec α] [Codec β] [Sink σ]

/-! ## Pieces and parts -/

/-- A log does not change what the sink is given, and the log is the same for all sinks. -/
theorem encodeInto_logged (sink : σ) (log : List (List UInt8)) (v : α) :
    encodeInto (⟨sink, log⟩ : Logged σ) v = ⟨encodeInto sink v, log ++ writes v⟩ := by
  unfold encodeInto
  generalize writes v = pieces
  induction pieces generalizing sink log with
  | nil => rw [List.foldl_nil, List.foldl_nil, List.append_nil]
  | cons piece pieces ih =>
      rw [List.foldl_cons, List.foldl_cons]
      show pieces.foldl Sink.write (Logged.mk (Sink.write sink piece) (log ++ [piece])) = _
      rw [ih, List.append_assoc, List.singleton_append]

theorem foldl_flatMap_writes (sink : σ) (xs : List α) :
    (xs.flatMap writes).foldl Sink.write sink = xs.foldl encodeInto sink := by
  induction xs generalizing sink with
  | nil => rfl
  | cons x xs ih => rw [List.flatMap_cons, List.foldl_append, List.foldl_cons, ih, encodeInto]

/-- An array is its length and then its items. -/
theorem encodeInto_array (sink : σ) (xs : Array α) :
    encodeInto sink xs = xs.toList.foldl encodeInto (encodeInto sink (UInt64.ofNat xs.size)) := by
  show (writes (UInt64.ofNat xs.size) ++ xs.toList.flatMap writes).foldl Sink.write sink = _
  rw [List.foldl_append, foldl_flatMap_writes, encodeInto]

/-- A vector is its items alone. -/
theorem encodeInto_vector {n : Nat} (sink : σ) (xs : Vector α n) :
    encodeInto sink xs = xs.toList.foldl encodeInto sink :=
  foldl_flatMap_writes sink xs.toList

/-- A tuple is its first field and then the others. -/
theorem encodeInto_pair (sink : σ) (x : α × β) :
    encodeInto sink x = encodeInto (encodeInto sink x.1) x.2 :=
  List.foldl_append

/-- A record is the tuple of its fields. -/
theorem IsRecord.encodeInto_eq {fields : α ≃ β} (h : IsRecord fields) (sink : σ) (c : α) :
    encodeInto sink c = encodeInto sink (fields c) := by
  rw [encodeInto, encodeInto, h.writes_eq]

/-- How values are written to a sink part by part. A number is one piece, an array is its length and its
items one after the other, a vector its items, a tuple its fields, and a record is the tuple of its
fields. -/
inductive Traversal : {α : Type} → [Codec α] → (σ → α → σ) → Prop where
  /-- Numbers of one byte. -/
  | u8 : Traversal fun sink (v : UInt8) => Sink.write sink (LittleEndian.toBytes 1 v.toNat)
  /-- Numbers of two bytes. -/
  | u16 : Traversal fun sink (v : UInt16) => Sink.write sink (LittleEndian.toBytes 2 v.toNat)
  /-- Numbers of four bytes. -/
  | u32 : Traversal fun sink (v : UInt32) => Sink.write sink (LittleEndian.toBytes 4 v.toNat)
  /-- Numbers of eight bytes. -/
  | u64 : Traversal fun sink (v : UInt64) => Sink.write sink (LittleEndian.toBytes 8 v.toNat)
  /-- Arrays of any length. -/
  | array {α : Type} [Codec α] {encode : σ → α → σ} (item : Traversal encode) :
      Traversal fun sink (xs : Array α) =>
        xs.toList.foldl encode (Sink.write sink (LittleEndian.toBytes 8 (UInt64.ofNat xs.size).toNat))
  /-- Vectors of a fixed length. -/
  | vector {α : Type} [Codec α] {encode : σ → α → σ} (n : Nat) (item : Traversal encode) :
      Traversal fun sink (xs : Vector α n) => xs.toList.foldl encode sink
  /-- The tuple of no fields. -/
  | unit : Traversal fun sink (_ : Unit) => sink
  /-- A tuple with one more field. -/
  | pair {α β : Type} [Codec α] [Codec β] {encode : σ → α → σ} {encodeOthers : σ → β → σ}
      (first : Traversal encode) (others : Traversal encodeOthers) :
      Traversal fun sink (x : α × β) => encodeOthers (encode sink x.1) x.2
  /-- Records. -/
  | record {γ τ : Type} [Codec γ] [Codec τ] {encode : σ → τ → σ} (fields : γ ≃ τ)
      (h : IsRecord fields) (tuple : Traversal encode) :
      Traversal fun sink (c : γ) => encode sink (fields c)

/-- Part by part, a sink is given the pieces of the whole value. -/
theorem Traversal.eq_encodeInto {α : Type} [Codec α] {encode : σ → α → σ} (h : Traversal encode) :
    encode = encodeInto := by
  induction h with
  | u8 =>
      funext sink v
      show Sink.write sink [UInt8.ofNat v.toNat] = Sink.write sink [v]
      rw [UInt8.ofNat_toNat]
  | u16 | u32 | u64 | unit => rfl
  | array item ih =>
      funext sink xs
      rw [ih, encodeInto_array]
      rfl
  | vector n item ih =>
      funext sink xs
      rw [ih, encodeInto_vector]
  | pair first others ihfirst ihothers =>
      funext sink x
      rw [ihfirst, ihothers, encodeInto_pair]
  | record fields hrecord tuple ih =>
      funext sink c
      rw [ih, hrecord.encodeInto_eq]

/-- The values of every format are written part by part. -/
theorem Composed.exists_traversal {bound : Nat} {α : Type} [Codec α] {P : α → Prop}
    (h : Composed bound α P) : ∃ encode : σ → α → σ, Traversal encode := by
  induction h with
  | u8 => exact ⟨_, .u8⟩
  | u16 => exact ⟨_, .u16⟩
  | u32 => exact ⟨_, .u32⟩
  | u64 => exact ⟨_, .u64⟩
  | array item ih =>
      obtain ⟨_, hitem⟩ := ih
      exact ⟨_, .array hitem⟩
  | vector n item ih =>
      obtain ⟨_, hitem⟩ := ih
      exact ⟨_, .vector n hitem⟩
  | unit => exact ⟨_, .unit⟩
  | pair first others ihfirst ihothers =>
      obtain ⟨_, hfirst⟩ := ihfirst
      obtain ⟨_, hothers⟩ := ihothers
      exact ⟨_, .pair hfirst hothers⟩
  | record fields hrecord tuple ih =>
      obtain ⟨_, htuple⟩ := ih
      exact ⟨_, .record fields hrecord htuple⟩

/-! ## Bytes -/

/-- A lawful sink ends as if it were given all bytes at once. -/
theorem encodeInto_eq_write [LawfulSink σ] (sink : σ) (v : α) :
    encodeInto sink v = Sink.write sink (toBytes v) := by
  rw [toBytes_eq_flatten, encodeInto]
  generalize writes v = pieces
  induction pieces generalizing sink with
  | nil => exact (LawfulSink.write_nil sink).symm
  | cons piece pieces ih => rw [List.foldl_cons, ih, List.flatten_cons, LawfulSink.write_append]

/-- A counter goes on by the number of the bytes. -/
theorem count_encodeInto (n : Nat) (v : α) :
    (encodeInto (⟨n⟩ : ByteCount) v).count = n + (toBytes v).length := by
  rw [encodeInto_eq_write]
  rfl

/-- The room that is asked for is the number of the bytes. -/
theorem size_eq_length (v : α) : size v = (toBytes v).length :=
  (count_encodeInto 0 v).trans (Nat.zero_add _)

/-- A digest is the hash of the bytes. -/
theorem digest_eq (v : α) : digest v = Sha3.digest (toBytes v) :=
  calc digest v = (encodeInto Sha3.Hasher.start v).finish := rfl
    _ = (Sink.write Sha3.Hasher.start (toBytes v)).finish := by rw [encodeInto_eq_write]
    _ = Sha3.digest (toBytes v) := rfl

end Codec

open Codec in
/-- The parts of an image's bytes may be written to one buffer. -/
theorem Image.toBytes_eq_encodeInto (image : Image) : image.toBytes =
    (encodeInto (encodeInto (encodeInto (#[] : Array UInt8) magic) currentVersion) image).toList := by
  rw [toList_encodeInto, toList_encodeInto, toList_encodeInto]
  simp only [← toBytes_eq_flatten]
  rfl

open Codec in
/-- **All sinks are given the same bytes.** Whatever is written, every sink is given the same pieces, and in
a row they are the bytes of the value. A sink that does not see where pieces end ends as if it were given
these bytes at once; a hash is one if hashing in pieces is hashing the concatenation. So the size that is
counted is exactly the number of the bytes, a buffer is extended by exactly them, and the digest is their
hash. Every format, nested in any way, is written part by part, and that is how its pieces come about. -/
theorem sinks_agree :
    (∀ (α : Type) [Codec α] (v : α),
      (∀ (σ : Type) [Sink σ] (sink : σ),
        encodeInto (Logged.mk sink []) v = ⟨encodeInto sink v, writes v⟩) ∧
      (writes v).flatten = toBytes v ∧
      (∀ (σ : Type) [Sink σ] [LawfulSink σ] (sink : σ),
        encodeInto sink v = Sink.write sink (toBytes v)) ∧
      size v = (toBytes v).length ∧
      (∀ buffer : Array UInt8, (encodeInto buffer v).toList = buffer.toList ++ toBytes v) ∧
      digest v = Sha3.digest (toBytes v)) ∧
    ∀ (σ α : Type) [Sink σ] [Codec α],
      (∀ encode : σ → α → σ, Traversal encode → ∀ sink v, encode sink v = encodeInto sink v) ∧
      ∀ bound P, Composed bound α P → ∃ encode : σ → α → σ, Traversal encode := by
  constructor
  · intro α _ v
    refine ⟨fun σ _ sink => encodeInto_logged sink [] v, (toBytes_eq_flatten v).symm,
      fun σ _ _ sink => encodeInto_eq_write sink v, size_eq_length v, fun buffer => ?_, digest_eq v⟩
    rw [toList_encodeInto, toBytes_eq_flatten]
  · intro σ α _ _
    refine ⟨fun encode h sink v => ?_, fun bound P h => h.exists_traversal⟩
    rw [h.eq_encodeInto]

open Codec in
/-- Words in arrays in vectors go to a hash, to a counter and behind a byte in a buffer. -/
theorem sinks_agree_nestedWords :
    LawfulSink Sha3.Hasher ∧
    encodeInto Sha3.Hasher.start Format.nestedWords =
      Sha3.Hasher.start.update (toBytes Format.nestedWords) ∧
    size Format.nestedWords = 46 ∧
    (encodeInto (#[7] : Array UInt8) Format.nestedWords).toList = 7 :: toBytes Format.nestedWords ∧
    ∃ encode : ByteCount → (Format.array (.vector 2 (.array .u16))).Value → ByteCount,
      Traversal encode ∧ encode ⟨5⟩ Format.nestedWords = encodeInto ⟨5⟩ Format.nestedWords := by
  obtain ⟨hbytes, hparts⟩ := sinks_agree
  obtain ⟨-, -, hlawful, hsize, hbuffer, -⟩ := hbytes _ Format.nestedWords
  obtain ⟨hencode, hcomposed⟩ := hparts ByteCount (Format.array (.vector 2 (.array .u16))).Value
  obtain ⟨P, hformat, -⟩ := (Format.array (.vector 2 (.array .u16))).composed 2
  obtain ⟨encode, htraversal⟩ := hcomposed 2 P hformat
  refine ⟨inferInstance, hlawful Sha3.Hasher Sha3.Hasher.start, ?_, hbuffer #[7], encode, htraversal,
    hencode encode htraversal ⟨5⟩ Format.nestedWords⟩
  rw [hsize]
  decide

end BytecodeSearch
