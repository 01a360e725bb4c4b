import BytecodeSearch.Proofs.Binary.Formats

/-!
# Bytes that are cut off

A decoder reads the bytes of a value if it accepts them with anything behind them, and if it finds that
its input ends too early as soon as one of them is missing (`Decoder.Reads`). Decoders in a row read the
bytes of their values in a row: a cut inside the first part stops the first decoder, and a cut behind it
leaves a cut inside the rest (`Decoder.Reads.bind`).

So the formats that are put together from numbers, arrays, vectors and records (`Codec.Composed`) all
notice a cut as what it is, wherever it is (`Codec.Composed.reads`), and so do images
(`unexpectedEnd_of_cut`).
-/

set_option autoImplicit false

namespace BytecodeSearch

/-! ## Decoders that need all their bytes -/

/-- Where two parts in a row are cut: inside the first one, or behind it and so inside the second
one. -/
theorem cut_append {α : Type} {first second front missing : List α}
    (h : first ++ second = front ++ missing) :
    (∃ lost, lost ≠ [] ∧ first = front ++ lost) ∨
      ∃ begun, front = first ++ begun ∧ second = begun ++ missing := by
  rcases List.append_eq_append_iff.mp h with ⟨begun, hfront, hsecond⟩ | ⟨lost, hfirst, hbehind⟩
  · exact .inr ⟨begun, hfront, hsecond⟩
  · by_cases hlost : lost = []
    · refine .inr ⟨[], ?_, ?_⟩
      · rw [hfirst, hlost, List.append_nil, List.append_nil]
      · rw [hbehind, hlost]
        rfl
    · exact .inl ⟨lost, hlost, hfirst⟩

namespace Decoder

variable {α β : Type} {d : Decoder α} {bytes more : List UInt8} {a : α}

/-- The decoder reads these bytes, whatever is behind them, and none of them may be missing at the
end. -/
structure Reads (d : Decoder α) (bytes : List UInt8) (a : α) : Prop where
  /-- The bytes are read as the value, and nothing behind them is consumed. -/
  whole : ∀ rest, d (bytes ++ rest) = .ok a rest
  /-- Fewer bytes end too early. -/
  cut : ∀ front missing, missing ≠ [] → bytes = front ++ missing →
    ∃ rest, d front = .error .unexpectedEnd rest

theorem Reads.pure (a : α) : Reads (Pure.pure a) [] a where
  whole _ := rfl
  cut := by
    intro front missing hmissing h
    exact absurd (List.append_eq_nil_iff.mp h.symm).2 hmissing

theorem reads_take (bytes : List UInt8) : (take bytes.length).Reads bytes bytes where
  whole rest := take_eq_ok_iff.mpr ⟨rfl, rfl⟩
  cut := by
    rintro front missing hmissing rfl
    have hpos := List.length_pos_of_ne_nil hmissing
    refine ⟨front, ?_⟩
    rw [take, if_neg]
    rw [List.length_take, List.length_append]
    omega

/-- Decoders in a row read bytes in a row. -/
theorem Reads.bind {f : α → Decoder β} {b : β} (hd : d.Reads bytes a) (hf : (f a).Reads more b) :
    (d >>= f).Reads (bytes ++ more) b := by
  constructor
  · intro rest
    rw [List.append_assoc, bind_eq_ok_iff]
    exact ⟨a, more ++ rest, hd.whole _, hf.whole rest⟩
  · intro front missing hmissing h
    show ∃ rest, EStateM.bind d f front = .error .unexpectedEnd rest
    unfold EStateM.bind
    rcases cut_append h with ⟨lost, hlost, hbytes⟩ | ⟨begun, rfl, hmore⟩
    · obtain ⟨rest, hrest⟩ := hd.cut front lost hlost hbytes
      exact ⟨rest, by rw [hrest]⟩
    · rw [hd.whole]
      exact hf.cut begun missing hmissing hmore

theorem Reads.map (f : α → β) (hd : d.Reads bytes a) : (f <$> d).Reads bytes (f a) := by
  have hbind : (d >>= fun x => Pure.pure (f x)).Reads (bytes ++ []) (f a) := hd.bind (.pure (f a))
  rwa [← map_eq_pure_bind, List.append_nil] at hbind

/-- Many values in a row are read from their bytes in a row. -/
theorem Reads.many {bytes : α → List UInt8} {xs : List α} (h : ∀ x ∈ xs, d.Reads (bytes x) x)
    (acc : Array α) : (many d xs.length acc).Reads (xs.flatMap bytes) (acc ++ xs.toArray) := by
  induction xs generalizing acc with
  | nil =>
      rw [Array.append_empty]
      exact Reads.pure acc
  | cons x xs ih =>
      obtain ⟨hx, hxs⟩ := List.forall_mem_cons.mp h
      rw [List.length_cons, many_succ, List.flatMap_cons]
      refine hx.bind ?_
      simpa using ih hxs (acc.push x)

end Decoder

/-! ## Numbers, arrays and vectors -/

namespace Codec

/-- A number that is read from its `k` bytes. -/
theorem reads_number {α : Type} [Codec α] [Lawful α] {k : Nat} {read : List UInt8 → α}
    (hread : (decode : Decoder α) = read <$> Decoder.take k) (v : α)
    (hlength : (toBytes v).length = k) (hv : Lawful.Fits v) : decode.Reads (toBytes v) v := by
  have hvalue : read (toBytes v) = v := by
    have hwhole : decode (toBytes v ++ []) = .ok v [] := Lawful.decode_iff.mpr ⟨rfl, hv⟩
    rw [hread, Decoder.map_eq_ok_iff] at hwhole
    obtain ⟨bytes, htake, hbytes⟩ := hwhole
    obtain ⟨happend, -⟩ := Decoder.take_eq_ok_iff.mp htake
    rwa [← List.append_cancel_right happend] at hbytes
  rw [hread, ← hlength]
  simpa only [hvalue] using (Decoder.reads_take (toBytes v)).map read

theorem reads_u8 (v : UInt8) : decode.Reads (toBytes v) v :=
  reads_number (k := 1) rfl v (by rw [toBytes_eq_flatten]; rfl) trivial

theorem reads_u16 (v : UInt16) : decode.Reads (toBytes v) v :=
  reads_number (k := 2) rfl v (by rw [toBytes_eq_flatten]; rfl) trivial

theorem reads_u32 (v : UInt32) : decode.Reads (toBytes v) v :=
  reads_number (k := 4) rfl v (by rw [toBytes_eq_flatten]; rfl) trivial

theorem reads_u64 (v : UInt64) : decode.Reads (toBytes v) v :=
  reads_number (k := 8) rfl v (by rw [toBytes_eq_flatten]; rfl) trivial

section

variable {α β : Type} [Codec α] [Codec β]

theorem reads_array {xs : Array α} (hsize : xs.size ≤ maxLength)
    (h : ∀ x ∈ xs, decode.Reads (toBytes x) x) : decode.Reads (toBytes xs) xs := by
  have hsmall : xs.size < 2 ^ 64 := Nat.lt_of_le_of_lt hsize (by decide)
  have hlength : (UInt64.ofNat xs.size).toNat = xs.size := UInt64.toNat_ofNat_of_lt' hsmall
  rw [toBytes_array]
  refine (reads_u64 (UInt64.ofNat xs.size)).bind ?_
  -- the length is not too large, so the items are read behind it
  rw [hlength, if_neg (Nat.not_lt.mpr hsize), ← Array.length_toList]
  simpa using Decoder.Reads.many (fun x hx => h x (Array.mem_toList_iff.mp hx)) #[]

theorem reads_vector {n : Nat} {xs : Vector α n} (h : ∀ x ∈ xs.toList, decode.Reads (toBytes x) x) :
    decode.Reads (toBytes xs) xs := by
  have hmany : (Decoder.many decode n #[]).Reads (xs.toList.flatMap toBytes) xs.toArray := by
    have hlist : xs.toList.toArray = xs.toArray := rfl
    have hitems := Decoder.Reads.many h #[]
    rwa [Vector.length_toList, Array.empty_append, hlist] at hitems
  rw [toBytes_vector]
  constructor
  · intro rest
    have hwhole := hmany.whole rest
    simp only [decode]
    split
    · rename_i ys mid hread
      obtain ⟨hys, hmid⟩ := EStateM.Result.ok.inj (hread.symm.trans hwhole)
      rw [EStateM.Result.ok.injEq]
      exact ⟨Vector.toArray_inj.mp hys, hmid⟩
    · rename_i e mid hread
      cases hread.symm.trans hwhole
  · intro front missing hmissing hcut
    obtain ⟨rest, hrest⟩ := hmany.cut front missing hmissing hcut
    refine ⟨rest, ?_⟩
    simp only [decode]
    split
    · rename_i ys mid hread
      cases hread.symm.trans hrest
    · rename_i e mid hread
      obtain ⟨rfl, rfl⟩ := EStateM.Result.error.inj (hread.symm.trans hrest)
      rfl

end

/-! ## Records -/

/-- The tuple of no fields. -/
instance : Codec Unit where
  writes _ := []
  decode := return ()

/-- A tuple is its fields in order. -/
instance {α β : Type} [Codec α] [Codec β] : Codec (α × β) where
  writes x := writes x.1 ++ writes x.2
  decode := do
    let a ← decode
    let b ← decode
    return (a, b)

theorem reads_pair {α β : Type} [Codec α] [Codec β] {x : α × β} (hfirst : decode.Reads (toBytes x.1) x.1)
    (hsecond : decode.Reads (toBytes x.2) x.2) : decode.Reads (toBytes x) x := by
  have hbytes : toBytes x = toBytes x.1 ++ (toBytes x.2 ++ []) := by
    simp only [toBytes_eq_flatten, List.append_nil, ← List.flatten_append]
    rfl
  rw [hbytes]
  exact hfirst.bind (hsecond.bind (Decoder.Reads.pure x))

/-- Values of `γ` are records with these fields: a record is written and read as the tuple of its
fields. -/
structure IsRecord {γ τ : Type} [Codec γ] [Codec τ] (fields : γ ≃ τ) : Prop where
  /-- The fields are written in order. -/
  writes_eq : ∀ c, writes c = writes (fields c)
  /-- The fields are read in order. -/
  decode_eq : (decode : Decoder γ) = fields.symm <$> decode

theorem IsRecord.reads {γ τ : Type} [Codec γ] [Codec τ] {fields : γ ≃ τ} (h : IsRecord fields) {c : γ}
    (hfields : decode.Reads (toBytes (fields c)) (fields c)) : decode.Reads (toBytes c) c := by
  have hbytes : toBytes c = toBytes (fields c) := by
    rw [toBytes_eq_flatten, h.writes_eq, ← toBytes_eq_flatten]
  rw [hbytes, h.decode_eq]
  simpa using hfields.map fields.symm

/-- A record of two fields. -/
theorem isRecord_two {α β γ : Type} [Codec α] [Codec β] [Codec γ] {fields : γ ≃ α × β}
    (hwrites : ∀ c, writes c = writes (fields c).1 ++ writes (fields c).2)
    (hdecode : (decode : Decoder γ) =
      decode >>= fun a => decode >>= fun b => pure (fields.symm (a, b))) : IsRecord fields where
  writes_eq := hwrites
  decode_eq := by
    show _ = fields.symm <$> (decode >>= fun a => decode >>= fun b => pure (a, b))
    simp only [hdecode, map_eq_pure_bind, bind_assoc, pure_bind]

/-! ## All formats -/

/-- The formats that are put together from numbers, arrays, vectors and records, nested in any way. The
last argument tells the values in which no array, at any depth, has more than `bound` elements. -/
inductive Composed (bound : Nat) : (α : Type) → [Codec α] → (α → Prop) → Prop where
  /-- Numbers of one byte. -/
  | u8 : Composed bound UInt8 fun _ => True
  /-- Numbers of two bytes. -/
  | u16 : Composed bound UInt16 fun _ => True
  /-- Numbers of four bytes. -/
  | u32 : Composed bound UInt32 fun _ => True
  /-- Numbers of eight bytes; sizes are such numbers. -/
  | u64 : Composed bound UInt64 fun _ => True
  /-- Arrays of any length. -/
  | array {α : Type} [Codec α] {P : α → Prop} (item : Composed bound α P) :
      Composed bound (Array α) fun xs => xs.size ≤ bound ∧ ∀ x ∈ xs, P x
  /-- Vectors of a fixed length. -/
  | vector {α : Type} [Codec α] {P : α → Prop} (n : Nat) (item : Composed bound α P) :
      Composed bound (Vector α n) fun xs => ∀ x ∈ xs.toList, P x
  /-- The tuple of no fields. -/
  | unit : Composed bound Unit fun _ => True
  /-- A tuple with one more field. -/
  | pair {α β : Type} [Codec α] [Codec β] {P : α → Prop} {Q : β → Prop} (first : Composed bound α P)
      (others : Composed bound β Q) : Composed bound (α × β) fun x => P x.1 ∧ Q x.2
  /-- Records. -/
  | record {γ τ : Type} [Codec γ] [Codec τ] {P : τ → Prop} (fields : γ ≃ τ) (h : IsRecord fields)
      (tuple : Composed bound τ P) : Composed bound γ fun c => P (fields c)

/-- Every format reads the bytes of a value, and none of them may be missing. -/
theorem Composed.reads {α : Type} [Codec α] {P : α → Prop} (h : Composed maxLength α P) {v : α}
    (hv : P v) : decode.Reads (toBytes v) v := by
  induction h with
  | u8 => exact reads_u8 v
  | u16 => exact reads_u16 v
  | u32 => exact reads_u32 v
  | u64 => exact reads_u64 v
  | array item ih => exact reads_array hv.1 fun x hx => ih (hv.2 x hx)
  | vector n item ih => exact reads_vector fun x hx => ih (hv x hx)
  | unit => exact Decoder.Reads.pure ()
  | pair first others ihfirst ihothers => exact reads_pair (ihfirst hv.1) (ihothers hv.2)
  | record fields hrecord tuple ih => exact hrecord.reads (ih hv)

/-- Cut bytes are refused by the decoder, and by the reader that has to use all of them. -/
theorem ofBytes_eq_error_of_cut {α : Type} [Codec α] {v : α} (h : decode.Reads (toBytes v) v)
    {front missing : List UInt8} (hmissing : missing ≠ []) (hcut : toBytes v = front ++ missing) :
    (∃ rest, (decode : Decoder α) front = .error .unexpectedEnd rest) ∧
      ofBytes (α := α) front = .error .unexpectedEnd := by
  obtain ⟨rest, hrest⟩ := h.cut front missing hmissing hcut
  refine ⟨⟨rest, hrest⟩, ?_⟩
  rw [ofBytes, hrest]

end Codec

/-! ## Formats of the library -/

/-- The fields of a version. -/
def Version.fields : Version ≃ UInt8 × UInt8 × UInt8 where
  toFun v := (v.major, v.minor, v.patch)
  invFun x := ⟨x.1, x.2.1, x.2.2⟩

/-- The fields of an image. -/
def Image.fields : Image ≃ Array Word × UInt32 where
  toFun image := (image.words, image.length)
  invFun x := ⟨x.1, x.2⟩

/-- The fields of a case. -/
def Case.fields : Case ≃ Array Word × Array Word where
  toFun c := (c.input, c.expected)
  invFun x := ⟨x.1, x.2⟩

theorem Version.isRecord : Codec.IsRecord Version.fields where
  writes_eq v := List.append_assoc _ _ _
  decode_eq := by
    show (Codec.decode >>= fun major => Codec.decode >>= fun minor => Codec.decode >>= fun patch =>
      pure (⟨major, minor, patch⟩ : Version)) = fields.symm <$> (Codec.decode >>= fun major =>
        (Codec.decode >>= fun minor => Codec.decode >>= fun patch => pure (minor, patch)) >>=
          fun others => pure (major, others))
    simp only [map_eq_pure_bind, bind_assoc, pure_bind]
    rfl

theorem Image.isRecord : Codec.IsRecord Image.fields :=
  Codec.isRecord_two (fun _ => rfl) rfl

theorem Case.isRecord : Codec.IsRecord Case.fields :=
  Codec.isRecord_two (fun _ => rfl) rfl

/-- The formats of the library are put together like this, and the values in which no array is too long
are the same. -/
theorem Format.composed (f : Format) (bound : Nat) :
    ∃ P, Codec.Composed bound f.Value P ∧ ∀ v, f.Within bound v ↔ P v := by
  have hwords : Codec.Composed bound (Array Word) _ := .array .u16
  induction f with
  | u8 => exact ⟨_, .u8, fun _ => Iff.rfl⟩
  | u16 => exact ⟨_, .u16, fun _ => Iff.rfl⟩
  | u32 => exact ⟨_, .u32, fun _ => Iff.rfl⟩
  | u64 | usize => exact ⟨_, .u64, fun _ => Iff.rfl⟩
  | array item ih =>
      obtain ⟨P, hitem, hP⟩ := ih
      exact ⟨_, .array hitem, fun xs => and_congr_right fun _ => forall₂_congr fun x _ => hP x⟩
  | vector n item ih =>
      obtain ⟨P, hitem, hP⟩ := ih
      exact ⟨_, .vector n hitem, fun xs => forall₂_congr fun x _ => hP x⟩
  | version =>
      refine ⟨_, .record Version.fields Version.isRecord (.pair .u8 (.pair .u8 .u8)), fun _ => ?_⟩
      exact (iff_of_true trivial ⟨trivial, trivial, trivial⟩)
  | image =>
      refine ⟨_, .record Image.fields Image.isRecord (.pair hwords .u32), fun _ => ?_⟩
      exact ⟨fun h => ⟨⟨h, fun _ _ => trivial⟩, trivial⟩, fun h => h.1.1⟩
  | case =>
      refine ⟨_, .record Case.fields Case.isRecord (.pair hwords hwords), fun _ => ?_⟩
      exact ⟨fun h => ⟨⟨h.1, fun _ _ => trivial⟩, h.2, fun _ _ => trivial⟩,
        fun h => ⟨h.1.1, h.2.1⟩⟩

/-! ## Images -/

namespace Image

theorem reads_version (v : Version) : Codec.decode.Reads (Codec.toBytes v) v :=
  Version.isRecord.reads (Codec.reads_pair (Codec.reads_u8 _)
    (Codec.reads_pair (Codec.reads_u8 _) (Codec.reads_u8 _)))

theorem reads_image {image : Image} (hsize : image.words.size ≤ Codec.maxLength) :
    Codec.decode.Reads (Codec.toBytes image) image :=
  Image.isRecord.reads (Codec.reads_pair (Codec.reads_array hsize fun w _ => Codec.reads_u16 w)
    (Codec.reads_u32 _))

section

variable {α : Type} [Codec α] {v : α}

theorem part_of_whole (h : Codec.decode.Reads (Codec.toBytes v) v) (rest : List UInt8) :
    part (Codec.toBytes v ++ rest) = .ok (v, rest) := by
  rw [part, h.whole]

theorem part_of_cut (h : Codec.decode.Reads (Codec.toBytes v) v) {front missing : List UInt8}
    (hmissing : missing ≠ []) (hcut : Codec.toBytes v = front ++ missing) :
    part (α := α) front = .error (.malformed .unexpectedEnd) := by
  obtain ⟨rest, hrest⟩ := h.cut front missing hmissing hcut
  rw [part, hrest]

end

theorem ofBytes_eq_error_of_short {bytes : List UInt8} (h : bytes.length < 6) :
    ofBytes bytes = .error .truncated := by
  rw [ofBytes, if_pos h]
  rfl

/-- An image whose bytes are cut behind the magic word is malformed. -/
theorem ofBytes_eq_error_of_cut {image : Image} (hsize : image.words.size ≤ Codec.maxLength)
    {front missing : List UInt8} (hmissing : missing ≠ []) (hcut : image.toBytes = front ++ missing)
    (hlong : 6 ≤ front.length) : ofBytes front = .error (.malformed .unexpectedEnd) := by
  have hmagic : (Codec.toBytes magic).length = 6 := by decide
  have hread : Codec.decode.Reads (Codec.toBytes magic) magic :=
    Codec.reads_vector fun b _ => Codec.reads_u8 b
  rw [toBytes, List.append_assoc] at hcut
  rcases cut_append hcut with ⟨lost, hlost, hfirst⟩ | ⟨begun, rfl, hbehind⟩
  · -- the magic word is there
    have hpos := List.length_pos_of_ne_nil hlost
    have hlength := congrArg List.length hfirst
    rw [hmagic, List.length_append] at hlength
    omega
  · rw [ofBytes, if_neg (Nat.not_lt.mpr hlong)]
    simp only [part_of_whole hread, ne_eq, not_true_eq_false, if_false, bind, Except.bind]
    rcases cut_append hbehind with ⟨lost, hlost, hfirst⟩ | ⟨begun, rfl, hlast⟩
    · rw [part_of_cut (reads_version currentVersion) hlost hfirst]
    · simp only [part_of_whole (reads_version currentVersion), not_true_eq_false, if_false,
        part_of_cut (reads_image hsize) hmissing hlast]

/-- What a cut image is refused with: `length` bytes of it are left. -/
def cutError (length : Nat) : ImageError :=
  if length < magic.size then .truncated else .malformed .unexpectedEnd

theorem message_cutError (length : Nat) : (cutError length).message =
    if length < magic.size then "decoding error: truncated"
    else "decoding error: unexpected end of input" := by
  unfold cutError
  split <;> rfl

theorem ofBytes_eq_cutError {image : Image} (hsize : image.words.size ≤ Codec.maxLength)
    {front missing : List UInt8} (hmissing : missing ≠ [])
    (hcut : image.toBytes = front ++ missing) : ofBytes front = .error (cutError front.length) := by
  unfold cutError
  by_cases hshort : front.length < magic.size
  · rw [if_pos hshort]
    exact ofBytes_eq_error_of_short hshort
  · rw [if_neg hshort]
    exact ofBytes_eq_error_of_cut hsize hmissing hcut (Nat.not_lt.mp hshort)

end Image

open Image in
/-- **Bytes that are cut off are refused as such.** Whatever the format is put together from, and wherever
the bytes of a value are cut, reading them finds that the input ends too early, and gives no value and no
other error; only no array in the value may have more than `2 ^ 20` elements. These are the formats of the
library, and any others of this kind. The bytes of an image that is read are refused, when they are cut, as
truncated if they end inside the magic word, and as ending too early if they end behind it. -/
theorem unexpectedEnd_of_cut :
    (∀ (α : Type) [Codec α] (P : α → Prop), Codec.Composed (2 ^ 20) α P → ∀ v, P v →
      ∀ front missing, missing ≠ [] → Codec.toBytes v = front ++ missing →
        (∃ rest, (Codec.decode : Decoder α) front = .error .unexpectedEnd rest) ∧
          Codec.ofBytes (α := α) front = .error .unexpectedEnd) ∧
    (∀ f : Format, ∃ P, Codec.Composed (2 ^ 20) f.Value P ∧ ∀ v, f.Within (2 ^ 20) v ↔ P v) ∧
    ∀ bytes image, ofBytes bytes = .ok image → ∀ front missing, missing ≠ [] →
      bytes = front ++ missing → ofBytes front = .error (cutError front.length) ∧
        (cutError front.length).message =
          if front.length < 6 then "decoding error: truncated"
          else "decoding error: unexpected end of input" := by
  refine ⟨?_, fun f => f.composed _, ?_⟩
  · intro α _ P hformat v hv front missing hmissing hcut
    exact Codec.ofBytes_eq_error_of_cut (hformat.reads hv) hmissing hcut
  · intro bytes image hread front missing hmissing hcut
    obtain ⟨rfl, hsize, -⟩ := ofBytes_eq_ok_iff.mp hread
    exact ⟨ofBytes_eq_cutError hsize hmissing hcut, message_cutError _⟩

open Image in
/-- A cut inside the length of an array in a vector, one inside the magic word of an image and one inside
its length. -/
theorem unexpectedEnd_nestedWords :
    (Format.array (.vector 2 (.array .u16))).Within (2 ^ 20) Format.nestedWords ∧
    (Codec.toBytes Format.nestedWords).drop 31 ≠ [] ∧
    Codec.ofBytes (α := (Format.array (.vector 2 (.array .u16))).Value)
      ((Codec.toBytes Format.nestedWords).take 31) = .error .unexpectedEnd ∧
    ofBytes oneSpare.toBytes = .ok oneSpare ∧
    ofBytes (oneSpare.toBytes.take 5) = .error .truncated ∧
    ofBytes (oneSpare.toBytes.take 30) = .error (.malformed .unexpectedEnd) := by
  obtain ⟨hvalues, hformats, himages⟩ := unexpectedEnd_of_cut
  have hsmall : (Format.array (.vector 2 (.array .u16))).Within (2 ^ 20) Format.nestedWords := by decide
  have hlost : (Codec.toBytes Format.nestedWords).drop 31 ≠ [] := by decide
  obtain ⟨P, hcomposed, hP⟩ := hformats (.array (.vector 2 (.array .u16)))
  have hread : ofBytes oneSpare.toBytes = .ok oneSpare := by
    refine ofBytes_eq_ok_iff.mpr ⟨rfl, by decide, Code.validate_eq_ok_iff.mp (by decide)⟩
  refine ⟨hsmall, hlost, ?_, hread, ?_, ?_⟩
  · exact (hvalues _ P hcomposed _ ((hP _).mp hsmall) _ _ hlost (List.take_append_drop 31 _).symm).2
  · exact (himages _ _ hread _ (oneSpare.toBytes.drop 5) (by decide)
      (List.take_append_drop 5 _).symm).1
  · exact (himages _ _ hread _ (oneSpare.toBytes.drop 30) (by decide)
      (List.take_append_drop 30 _).symm).1

end BytecodeSearch
