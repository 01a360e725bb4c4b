import BytecodeSearch.Binary.Codec

/-!
# What is written is what is read

A codec is lawful if its decoder accepts the bytes of a value, with anything behind them, and nothing
else (`Codec.Lawful`): what is written is read back, and what is read is what would be written. Numbers
are lawful, and so are arrays, vectors and records of what is.

There is one limit that only the decoder has: it reads no array of more than `Codec.maxLength`
elements, while the writer writes arrays of any size. `Codec.Lawful.Fits` tells which values are below
it.
-/

set_option autoImplicit false

namespace BytecodeSearch

/-! ## Decoders that succeed -/

namespace Decoder

variable {α β : Type} {d : Decoder α} {input rest : List UInt8}

theorem map_eq_ok_iff {f : α → β} {b : β} :
    (f <$> d) input = .ok b rest ↔ ∃ a, d input = .ok a rest ∧ f a = b := by
  show EStateM.map f d input = .ok b rest ↔ _
  unfold EStateM.map
  cases d input with
  | ok a mid =>
      simp only [EStateM.Result.ok.injEq]
      constructor
      · rintro ⟨rfl, rfl⟩
        exact ⟨a, ⟨rfl, rfl⟩, rfl⟩
      · rintro ⟨_, ⟨rfl, rfl⟩, rfl⟩
        exact ⟨rfl, rfl⟩
  | error e mid => simp

theorem bind_eq_ok_iff {f : α → Decoder β} {b : β} :
    (d >>= f) input = .ok b rest ↔ ∃ a mid, d input = .ok a mid ∧ f a mid = .ok b rest := by
  show EStateM.bind d f input = .ok b rest ↔ _
  unfold EStateM.bind
  cases d input with
  | ok a mid =>
      constructor
      · intro h
        exact ⟨a, mid, rfl, h⟩
      · rintro ⟨_, _, hd, h⟩
        obtain ⟨rfl, rfl⟩ := EStateM.Result.ok.inj hd
        exact h
  | error e mid => simp

theorem pure_eq_ok_iff {a b : α} : (pure a : Decoder α) input = .ok b rest ↔ a = b ∧ input = rest := by
  show (EStateM.Result.ok a input : EStateM.Result DecodeError _ α) = .ok b rest ↔ _
  rw [EStateM.Result.ok.injEq]

theorem take_eq_ok_iff {n : Nat} {bytes : List UInt8} :
    take n input = .ok bytes rest ↔ input = bytes ++ rest ∧ bytes.length = n := by
  unfold take
  constructor
  · intro h
    by_cases hlength : (input.take n).length = n
    · rw [if_pos hlength] at h
      obtain ⟨rfl, rfl⟩ := EStateM.Result.ok.inj h
      exact ⟨(List.take_append_drop n input).symm, hlength⟩
    · rw [if_neg hlength] at h
      cases h
  · rintro ⟨rfl, rfl⟩
    rw [if_pos (by rw [List.take_left]), List.take_left, List.drop_left]

theorem many_succ (d : Decoder α) (n : Nat) (acc : Array α) :
    many d (n + 1) acc = d >>= fun x => many d n (acc.push x) := by
  funext input
  show _ = EStateM.bind d (fun x => many d n (acc.push x)) input
  unfold EStateM.bind
  rw [many]
  cases d input with
  | ok x mid => rfl
  | error e mid => rfl

end Decoder

namespace Codec

variable {α : Type} [Codec α]

/-! ## The bytes of a value -/

theorem toList_encodeInto (buffer : Array UInt8) (v : α) :
    (encodeInto buffer v).toList = buffer.toList ++ (writes v).flatten := by
  unfold encodeInto
  generalize writes v = pieces
  induction pieces generalizing buffer with
  | nil => simp
  | cons piece pieces ih =>
      rw [List.foldl_cons, ih, List.flatten_cons, ← List.append_assoc]
      show (buffer ++ piece).toList ++ _ = _
      rw [Array.toList_appendList]

/-- The bytes of a value are the pieces it is written in. -/
theorem toBytes_eq_flatten (v : α) : toBytes v = (writes v).flatten := by
  unfold toBytes
  rw [toList_encodeInto]
  exact List.nil_append _

theorem flatten_flatMap_writes (xs : List α) :
    (xs.flatMap writes).flatten = xs.flatMap toBytes := by
  induction xs with
  | nil => rfl
  | cons x xs ih =>
      rw [List.flatMap_cons, List.flatMap_cons, List.flatten_append, ih, toBytes_eq_flatten]

theorem toBytes_array (xs : Array α) :
    toBytes xs = toBytes (UInt64.ofNat xs.size) ++ xs.toList.flatMap toBytes := by
  rw [toBytes_eq_flatten, toBytes_eq_flatten]
  show (writes (UInt64.ofNat xs.size) ++ xs.toList.flatMap writes).flatten = _
  rw [List.flatten_append, flatten_flatMap_writes]

theorem toBytes_vector {n : Nat} (xs : Vector α n) : toBytes xs = xs.toList.flatMap toBytes := by
  rw [toBytes_eq_flatten]
  exact flatten_flatMap_writes xs.toList

/-! ## Lawful codecs -/

/-- A decoder reads back exactly the bytes of the values that it has no limit for. -/
class Lawful (α : Type) [Codec α] where
  /-- Whether every array in the value has at most `maxLength` elements. -/
  Fits : α → Prop
  decode_iff : ∀ {v : α} {input rest : List UInt8},
    decode input = .ok v rest ↔ input = toBytes v ++ rest ∧ Fits v

/-- A number that is written as its `k` bytes, and read as the number with these bytes. -/
theorem decode_number_iff {k : Nat} {toNat : α → Nat} {ofNat : Nat → α}
    (hwrites : ∀ v : α, (writes v).flatten = LittleEndian.toBytes k (toNat v))
    (hsize : ∀ v, toNat v < Nat.pow 256 k) (hread : ∀ v, ofNat (toNat v) = v)
    (hwrite : ∀ n < Nat.pow 256 k, toNat (ofNat n) = n) {v : α} {input rest : List UInt8} :
    ((fun bytes => ofNat (LittleEndian.ofBytes bytes)) <$> Decoder.take k) input = .ok v rest ↔
      input = toBytes v ++ rest ∧ True := by
  rw [Decoder.map_eq_ok_iff, toBytes_eq_flatten, hwrites, and_true]
  simp only [Decoder.take_eq_ok_iff]
  constructor
  · rintro ⟨bytes, ⟨rfl, rfl⟩, rfl⟩
    rw [hwrite _ (LittleEndian.ofBytes_lt bytes), LittleEndian.toBytes_ofBytes]
  · rintro rfl
    refine ⟨_, ⟨rfl, LittleEndian.length_toBytes k _⟩, ?_⟩
    show ofNat (LittleEndian.ofBytes _) = v
    rw [LittleEndian.ofBytes_toBytes (hsize v), hread]

instance : Lawful UInt8 where
  Fits _ := True
  decode_iff := by
    refine decode_number_iff (k := 1) (fun v => ?_) UInt8.toNat_lt (fun v => UInt8.ofNat_toNat)
      fun n hn => UInt8.toNat_ofNat_of_lt' hn
    show [v] = [UInt8.ofNat v.toNat]
    rw [UInt8.ofNat_toNat]

instance : Lawful UInt16 where
  Fits _ := True
  decode_iff := decode_number_iff (k := 2) (fun _ => List.append_nil _) UInt16.toNat_lt
    (fun _ => UInt16.ofNat_toNat) fun _ hn => UInt16.toNat_ofNat_of_lt' hn

instance : Lawful UInt32 where
  Fits _ := True
  decode_iff := decode_number_iff (k := 4) (fun _ => List.append_nil _) UInt32.toNat_lt
    (fun _ => UInt32.ofNat_toNat) fun _ hn => UInt32.toNat_ofNat_of_lt' hn

instance : Lawful UInt64 where
  Fits _ := True
  decode_iff := decode_number_iff (k := 8) (fun _ => List.append_nil _) UInt64.toNat_lt
    (fun _ => UInt64.ofNat_toNat) fun _ hn => UInt64.toNat_ofNat_of_lt' hn

variable [Lawful α]

/-- Bytes that have to be used up are read as a value exactly if reading it leaves nothing behind. -/
theorem ofBytes_eq_ok_iff {α : Type} [Codec α] {bytes : List UInt8} {v : α} :
    ofBytes bytes = .ok v ↔ decode bytes = .ok v [] := by
  unfold ofBytes
  split
  · rename_i h
    rw [h]
    simp
  · rename_i h
    rw [h]
    simp
  · rename_i h
    rw [h]
    simp

/-- A record of two fields, made by `make` and taken apart by `first` and `second`, is read from the
bytes of the one field and those of the other behind them. -/
theorem decode_record_iff {β γ : Type} [Codec β] [Lawful β] (make : α → β → γ) (first : γ → α)
    (second : γ → β) (hmake : ∀ c, make (first c) (second c) = c)
    (hfirst : ∀ a b, first (make a b) = a) (hsecond : ∀ a b, second (make a b) = b) {c : γ}
    {input rest : List UInt8} :
    (decode >>= fun a => decode >>= fun b => pure (make a b) : Decoder γ) input = .ok c rest ↔
      input = toBytes (first c) ++ toBytes (second c) ++ rest ∧
        Lawful.Fits (first c) ∧ Lawful.Fits (second c) := by
  simp only [Decoder.bind_eq_ok_iff, Decoder.pure_eq_ok_iff, Lawful.decode_iff]
  constructor
  · rintro ⟨a, _, ⟨rfl, ha⟩, b, _, ⟨rfl, hb⟩, rfl, rfl⟩
    rw [hfirst, hsecond, List.append_assoc]
    exact ⟨rfl, ha, hb⟩
  · rintro ⟨rfl, ha, hb⟩
    rw [List.append_assoc]
    exact ⟨first c, _, ⟨rfl, ha⟩, second c, _, ⟨rfl, hb⟩, hmake c, rfl⟩

/-- Values that are read in a row come from their bytes in a row. -/
theorem many_eq_ok_iff {n : Nat} {acc xs : Array α} {input rest : List UInt8} :
    Decoder.many decode n acc input = .ok xs rest ↔
      ∃ read : List α, xs.toList = acc.toList ++ read ∧ read.length = n ∧
        input = read.flatMap toBytes ++ rest ∧ ∀ x ∈ read, Lawful.Fits x := by
  induction n generalizing acc input with
  | zero =>
      simp only [Decoder.many, EStateM.Result.ok.injEq]
      constructor
      · rintro ⟨rfl, rfl⟩
        exact ⟨[], (List.append_nil _).symm, rfl, rfl, by simp⟩
      · rintro ⟨read, hxs, hlength, rfl, -⟩
        obtain rfl := List.eq_nil_of_length_eq_zero hlength
        rw [List.append_nil] at hxs
        exact ⟨(Array.toList_inj.mp hxs).symm, rfl⟩
  | succ n ih =>
      -- the first value, and then the others behind it
      rw [Decoder.many_succ, Decoder.bind_eq_ok_iff]
      simp only [Lawful.decode_iff, ih, Array.toList_push, List.append_assoc,
        List.singleton_append]
      constructor
      · rintro ⟨x, _, ⟨rfl, hx⟩, read, hxs, rfl, rfl, hfits⟩
        refine ⟨x :: read, hxs, rfl, ?_, List.forall_mem_cons.mpr ⟨hx, hfits⟩⟩
        rw [List.flatMap_cons, List.append_assoc]
      · rintro ⟨read, hxs, hlength, rfl, hfits⟩
        obtain ⟨x, read, rfl⟩ := List.exists_cons_of_length_eq_add_one hlength
        obtain ⟨hx, hothers⟩ := List.forall_mem_cons.mp hfits
        refine ⟨x, read.flatMap toBytes ++ rest, ⟨?_, hx⟩, read, hxs,
          Nat.succ.inj hlength, rfl, hothers⟩
        rw [List.flatMap_cons, List.append_assoc]

instance : Lawful (Array α) where
  Fits xs := xs.size ≤ maxLength ∧ ∀ x ∈ xs, Lawful.Fits x
  decode_iff {xs input rest} := by
    have hdecode : (decode : Decoder (Array α)) input = .ok xs rest ↔ ∃ length : UInt64, ∃ mid,
        decode input = .ok length mid ∧ length.toNat ≤ maxLength ∧
          Decoder.many decode length.toNat #[] mid = .ok xs rest := by
      refine Decoder.bind_eq_ok_iff.trans (exists_congr fun length => exists_congr fun mid =>
        and_congr_right fun _ => ?_)
      by_cases hlength : length.toNat > maxLength
      · rw [if_pos hlength]
        constructor
        · intro h
          cases h
        · rintro ⟨hle, -⟩
          omega
      · rw [if_neg hlength]
        exact (and_iff_right (Nat.not_lt.mp hlength)).symm
    rw [hdecode, toBytes_array]
    simp only [Lawful.decode_iff, many_eq_ok_iff, List.nil_append]
    constructor
    · rintro ⟨length, _, ⟨rfl, -⟩, hle, read, rfl, hread, rfl, hfits⟩
      have hsize : xs.size = length.toNat := hread
      rw [hsize, UInt64.ofNat_toNat, List.append_assoc]
      exact ⟨rfl, hle, fun x hx => hfits x (Array.mem_toList_iff.mpr hx)⟩
    · rintro ⟨rfl, hle, hfits⟩
      have hsmall : xs.size < 2 ^ 64 := Nat.lt_of_le_of_lt hle (by decide)
      have hsize : (UInt64.ofNat xs.size).toNat = xs.size := UInt64.toNat_ofNat_of_lt' hsmall
      refine ⟨UInt64.ofNat xs.size, _, ⟨List.append_assoc .., trivial⟩, by rwa [hsize], xs.toList,
        rfl, ?_, rfl, fun x hx => hfits x (Array.mem_toList_iff.mp hx)⟩
      rw [hsize, Array.length_toList]

instance {n : Nat} : Lawful (Vector α n) where
  Fits xs := ∀ x ∈ xs.toList, Lawful.Fits x
  decode_iff {xs input rest} := by
    have hdecode : (decode : Decoder (Vector α n)) input = .ok xs rest ↔
        Decoder.many decode n #[] input = .ok xs.toArray rest := by
      simp only [decode]
      split
      · rename_i ys mid h
        constructor
        · intro hread
          obtain ⟨rfl, rfl⟩ := EStateM.Result.ok.inj hread
          exact h
        · intro hread
          obtain ⟨hys, rfl⟩ := EStateM.Result.ok.inj (h.symm.trans hread)
          rw [EStateM.Result.ok.injEq]
          exact ⟨Vector.toArray_inj.mp hys, rfl⟩
      · rename_i e mid h
        constructor
        · intro hread
          cases hread
        · intro hread
          cases h.symm.trans hread
    rw [hdecode, many_eq_ok_iff, toBytes_vector]
    constructor
    · rintro ⟨read, hxs, hlength, rfl, hfits⟩
      rw [List.nil_append] at hxs
      rw [← hxs] at hfits
      exact ⟨by rw [← hxs]; rfl, hfits⟩
    · rintro ⟨rfl, hfits⟩
      exact ⟨xs.toList, rfl, by simp, rfl, hfits⟩

end Codec

end BytecodeSearch
