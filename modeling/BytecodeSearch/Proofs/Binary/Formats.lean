import BytecodeSearch.Proofs.Program.Images
import BytecodeSearch.Search.Case

/-!
# All stored types

`Format` names the types that have a binary format: numbers, the records that are stored, and arrays
and vectors of such types, nested in any way. `Format.Value` is the type a format is of, and a fact
about all of them is proved along the format.

Two facts are. A decoder accepts the bytes of a value, with anything behind them, exactly if no array
in the value has more than `Codec.maxLength` elements (`fits_iff`). The bytes of a value tell where they
end, also where arrays are longer than that: only the length has to fit the eight bytes it is written
in (`Codec.Delimits`, `delimits_within`).
-/

set_option autoImplicit false

namespace BytecodeSearch

theorem Case.codec_toBytes (c : Case) :
    Codec.toBytes c = Codec.toBytes c.input ++ Codec.toBytes c.expected := by
  simp only [Codec.toBytes_eq_flatten, ← List.flatten_append]
  rfl

instance : Codec.Lawful Case where
  Fits c := c.input.size ≤ Codec.maxLength ∧ c.expected.size ≤ Codec.maxLength
  decode_iff {c input rest} := by
    refine (Codec.decode_record_iff Case.mk Case.input Case.expected (fun _ => rfl)
      (fun _ _ => rfl) fun _ _ => rfl).trans ?_
    rw [Case.codec_toBytes]
    exact and_congr_right fun _ => and_congr (and_iff_left fun _ _ => trivial)
      (and_iff_left fun _ _ => trivial)

/-! ## Bytes that tell where they end -/

namespace Codec

variable {α : Type} [Codec α]

/-- Bytes that begin with a value that has the property, and end as they like, begin with no other such
value. -/
def Delimits (P : α → Prop) : Prop :=
  ∀ ⦃v w : α⦄ ⦃rest rest' : List UInt8⦄, P v → P w →
    toBytes v ++ rest = toBytes w ++ rest' → v = w ∧ rest = rest'

/-- What is read back delimits itself. -/
theorem delimits_fits [Lawful α] : Delimits (Lawful.Fits : α → Prop) := by
  intro v w rest rest' hv hw h
  have hread : decode (toBytes v ++ rest) = .ok v rest := Lawful.decode_iff.mpr ⟨rfl, hv⟩
  have hread' : decode (toBytes v ++ rest) = .ok w rest' := Lawful.decode_iff.mpr ⟨h, hw⟩
  exact EStateM.Result.ok.inj (hread.symm.trans hread')

theorem Delimits.mono {P Q : α → Prop} (h : Delimits P) (hle : ∀ v, Q v → P v) : Delimits Q :=
  fun v w _ _ hv hw heq => h (hle v hv) (hle w hw) heq

/-- As many values in a row delimit themselves. -/
theorem Delimits.items {P : α → Prop} (h : Delimits P) {xs ys : List α}
    {rest rest' : List UInt8} (hlength : xs.length = ys.length) (hxs : ∀ x ∈ xs, P x)
    (hys : ∀ y ∈ ys, P y) (heq : xs.flatMap toBytes ++ rest = ys.flatMap toBytes ++ rest') :
    xs = ys ∧ rest = rest' := by
  induction xs generalizing ys with
  | nil =>
      obtain rfl := List.eq_nil_of_length_eq_zero hlength.symm
      exact ⟨rfl, heq⟩
  | cons x xs ih =>
      obtain ⟨y, ys, rfl⟩ := List.exists_cons_of_length_eq_add_one hlength.symm
      obtain ⟨hx, hxs⟩ := List.forall_mem_cons.mp hxs
      obtain ⟨hy, hothers⟩ := List.forall_mem_cons.mp hys
      rw [List.flatMap_cons, List.flatMap_cons, List.append_assoc, List.append_assoc] at heq
      obtain ⟨rfl, hbehind⟩ := h hx hy heq
      obtain ⟨rfl, hrest⟩ := ih (Nat.succ.inj hlength) hxs hothers hbehind
      exact ⟨rfl, hrest⟩

theorem Delimits.array {P : α → Prop} (h : Delimits P) :
    Delimits fun xs : Array α => xs.size ≤ 2 ^ 64 - 1 ∧ ∀ x ∈ xs, P x := by
  rintro xs ys rest rest' ⟨hsize, hxs⟩ ⟨hsize', hys⟩ heq
  rw [toBytes_array, toBytes_array, List.append_assoc, List.append_assoc] at heq
  obtain ⟨hlengths, hitems⟩ := delimits_fits (α := UInt64) trivial trivial heq
  -- equal length fields are equal lengths, since both lengths fit the field
  have hsizes : xs.size = ys.size := by
    have hnat := congrArg UInt64.toNat hlengths
    rwa [UInt64.toNat_ofNat_of_lt' (by show xs.size < 2 ^ 64; omega),
      UInt64.toNat_ofNat_of_lt' (by show ys.size < 2 ^ 64; omega)] at hnat
  obtain ⟨hlists, hrest⟩ := h.items (by simpa using hsizes)
    (fun x hx => hxs x (Array.mem_toList_iff.mp hx)) (fun y hy => hys y (Array.mem_toList_iff.mp hy))
    hitems
  exact ⟨Array.toList_inj.mp hlists, hrest⟩

theorem Delimits.vector {P : α → Prop} {n : Nat} (h : Delimits P) :
    Delimits fun xs : Vector α n => ∀ x ∈ xs.toList, P x := by
  intro xs ys rest rest' hxs hys heq
  rw [toBytes_vector, toBytes_vector] at heq
  obtain ⟨hlists, hrest⟩ := h.items (by simp) hxs hys heq
  exact ⟨Vector.toList_inj.mp hlists, hrest⟩

/-- A record of two fields delimits itself if its fields do. -/
theorem Delimits.record {β γ : Type} [Codec β] [Codec γ] {P : α → Prop} {Q : β → Prop}
    (hfirst : Delimits P) (hsecond : Delimits Q) (first : γ → α) (second : γ → β)
    (hbytes : ∀ c, toBytes c = toBytes (first c) ++ toBytes (second c))
    (hext : ∀ c d, first c = first d → second c = second d → c = d) :
    Delimits fun c => P (first c) ∧ Q (second c) := by
  rintro c d rest rest' ⟨hc, hc'⟩ ⟨hd, hd'⟩ heq
  rw [hbytes, hbytes, List.append_assoc, List.append_assoc] at heq
  obtain ⟨hone, heq⟩ := hfirst hc hd heq
  obtain ⟨htwo, hrest⟩ := hsecond hc' hd' heq
  exact ⟨hext c d hone htwo, hrest⟩

end Codec

/-! ## Formats -/

/-- The types with a binary format. -/
inductive Format where
  /-- Numbers of one byte. -/
  | u8
  /-- Numbers of two bytes. -/
  | u16
  /-- Numbers of four bytes. -/
  | u32
  /-- Numbers of eight bytes. -/
  | u64
  /-- Sizes and indexes, which are numbers of eight bytes. -/
  | usize
  /-- Arrays of any length. -/
  | array (item : Format)
  /-- Vectors of a fixed length. -/
  | vector (n : Nat) (item : Format)
  /-- Versions of the image format. -/
  | version
  /-- Images of programs. -/
  | image
  /-- Cases. -/
  | case

namespace Format

/-- The values of a format. -/
def Value : Format → Type
  | u8 => UInt8
  | u16 => UInt16
  | u32 => UInt32
  | u64 | usize => UInt64
  | array item => Array item.Value
  | vector n item => Vector item.Value n
  | version => Version
  | image => Image
  | case => Case

instance codec : (f : Format) → Codec f.Value
  | u8 => inferInstanceAs (Codec UInt8)
  | u16 => inferInstanceAs (Codec UInt16)
  | u32 => inferInstanceAs (Codec UInt32)
  | u64 | usize => inferInstanceAs (Codec UInt64)
  | array item =>
      have := item.codec
      inferInstanceAs (Codec (Array item.Value))
  | vector n item =>
      have := item.codec
      inferInstanceAs (Codec (Vector item.Value n))
  | version => inferInstanceAs (Codec Version)
  | image => inferInstanceAs (Codec Image)
  | case => inferInstanceAs (Codec Case)

instance lawful : (f : Format) → Codec.Lawful f.Value
  | u8 => inferInstanceAs (Codec.Lawful UInt8)
  | u16 => inferInstanceAs (Codec.Lawful UInt16)
  | u32 => inferInstanceAs (Codec.Lawful UInt32)
  | u64 | usize => inferInstanceAs (Codec.Lawful UInt64)
  | array item =>
      have := item.lawful
      inferInstanceAs (Codec.Lawful (Array item.Value))
  | vector n item =>
      have := item.lawful
      inferInstanceAs (Codec.Lawful (Vector item.Value n))
  | version => inferInstanceAs (Codec.Lawful Version)
  | image => inferInstanceAs (Codec.Lawful Image)
  | case => inferInstanceAs (Codec.Lawful Case)

/-- Whether every array in a value, at any depth, has at most `bound` elements. -/
def Within (bound : Nat) : (f : Format) → f.Value → Prop
  | u8, _ | u16, _ | u32, _ | u64, _ | usize, _ | version, _ => True
  | array item, (xs : Array item.Value) => xs.size ≤ bound ∧ ∀ x ∈ xs, item.Within bound x
  | vector _ item, (xs : Vector item.Value _) => ∀ x ∈ xs.toList, item.Within bound x
  | image, (i : Image) => i.words.size ≤ bound
  | case, (c : Case) => c.input.size ≤ bound ∧ c.expected.size ≤ bound

instance decidableWithin (bound : Nat) : (f : Format) → (v : f.Value) → Decidable (f.Within bound v)
  | u8, _ | u16, _ | u32, _ | u64, _ | usize, _ | version, _ => isTrue trivial
  | array item, (xs : Array item.Value) =>
      have := item.decidableWithin bound
      inferInstanceAs (Decidable (xs.size ≤ bound ∧ ∀ x ∈ xs, item.Within bound x))
  | vector _ item, (xs : Vector item.Value _) =>
      have := item.decidableWithin bound
      inferInstanceAs (Decidable (∀ x ∈ xs.toList, item.Within bound x))
  | image, (i : Image) => inferInstanceAs (Decidable (i.words.size ≤ bound))
  | case, (c : Case) =>
      inferInstanceAs (Decidable (c.input.size ≤ bound ∧ c.expected.size ≤ bound))

/-- The values that are read back are those whose arrays are not too long. -/
theorem fits_iff (f : Format) (v : f.Value) :
    Codec.Lawful.Fits v ↔ f.Within Codec.maxLength v := by
  induction f with
  | u8 | u16 | u32 | u64 | usize | version | image | case => exact Iff.rfl
  | array item ih => exact and_congr_right fun _ => forall₂_congr fun x _ => ih x
  | vector n item ih => exact forall₂_congr fun x _ => ih x

theorem delimits_words : Codec.Delimits fun ws : Array Word => ws.size ≤ 2 ^ 64 - 1 :=
  (Codec.delimits_fits.array).mono fun _ hsize => ⟨hsize, fun _ _ => trivial⟩

/-- The bytes of a value tell where they end, if the length of every array in it fits its field. -/
theorem delimits_within (f : Format) : Codec.Delimits (f.Within (2 ^ 64 - 1)) := by
  induction f with
  | u8 | u16 | u32 | u64 | usize | version => exact Codec.delimits_fits
  | array item ih => exact ih.array
  | vector n item ih => exact ih.vector
  | image =>
      refine (delimits_words.record (Codec.delimits_fits (α := UInt32)) Image.words Image.length
        Image.codec_toBytes ?_).mono fun _ hsize => ⟨hsize, trivial⟩
      rintro ⟨⟩ ⟨⟩ rfl rfl
      rfl
  | case =>
      refine delimits_words.record delimits_words Case.input Case.expected Case.codec_toBytes ?_
      rintro ⟨⟩ ⟨⟩ rfl rfl
      rfl

/-- **A format reads exactly what it writes.** Whatever the type, reading gives a value and leaves
`rest` behind exactly if the input is the bytes of the value and `rest` behind them, and no array in the
value has more than `2 ^ 20` elements. Bytes tell the value they are of, and where it ends; for this an
array only has to be as long as a size can say. Bytes that are all to be used are read as a value exactly
if they are its bytes. -/
theorem exact_of_format (f : Format) :
    (∀ (v : f.Value) (input rest : List UInt8), Codec.decode input = .ok v rest ↔
      input = Codec.toBytes v ++ rest ∧ f.Within (2 ^ 20) v) ∧
    (∀ (v w : f.Value) (rest rest' : List UInt8), f.Within (2 ^ 64 - 1) v →
      f.Within (2 ^ 64 - 1) w → Codec.toBytes v ++ rest = Codec.toBytes w ++ rest' →
        v = w ∧ rest = rest') ∧
    ∀ (v : f.Value) (bytes : List UInt8), Codec.ofBytes bytes = .ok v ↔
      bytes = Codec.toBytes v ∧ f.Within (2 ^ 20) v := by
  have hdecode : ∀ (v : f.Value) (input rest : List UInt8), Codec.decode input = .ok v rest ↔
      input = Codec.toBytes v ++ rest ∧ f.Within (2 ^ 20) v := by
    intro v input rest
    rw [Codec.Lawful.decode_iff, fits_iff]
    rfl
  refine ⟨hdecode, fun v w rest rest' hv hw heq => f.delimits_within hv hw heq, fun v bytes => ?_⟩
  rw [Codec.ofBytes_eq_ok_iff, hdecode, List.append_nil]

/-- Two vectors of arrays of words. -/
def nestedWords : (array (vector 2 (array u16))).Value :=
  (#[#v[#[1, 2], #[]], #v[#[], #[3]]] : Array (Vector (Array Word) 2))

theorem exact_nestedWords :
    (array (vector 2 (array u16))).Within (2 ^ 64 - 1) nestedWords ∧
    (array (vector 2 (array u16))).Within (2 ^ 20) nestedWords ∧
    Codec.decode (Codec.toBytes nestedWords ++ [7]) = .ok nestedWords [7] ∧
    ∀ rest, Codec.toBytes nestedWords ++ rest = Codec.toBytes nestedWords ++ [7] → rest = [7] := by
  obtain ⟨hdecode, hdelimits, -⟩ := exact_of_format (array (vector 2 (array u16)))
  have hlarge : (array (vector 2 (array u16))).Within (2 ^ 64 - 1) nestedWords := by decide
  have hsmall : (array (vector 2 (array u16))).Within (2 ^ 20) nestedWords := by decide
  exact ⟨hlarge, hsmall, (hdecode _ _ _).mpr ⟨rfl, hsmall⟩,
    fun rest heq => (hdelimits _ _ _ _ hlarge hlarge heq).2⟩

end Format

end BytecodeSearch
