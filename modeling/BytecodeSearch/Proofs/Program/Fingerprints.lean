import BytecodeSearch.Proofs.Binary.Sinks

/-!
# Fingerprints

A fingerprint is the hexadecimal text of the hash of the program's words, as they are stored. The text
tells the bytes of the hash (`Hex.bytes_injective`), and the stored words tell the words, since their
number comes first (`Image.toBytes_programWords_inj`). So two fingerprints are the same only if the words
are, or if the hash has a collision at the very bytes that were hashed (`Image.fingerprint_eq_iff`,
`fingerprints_identify`).
-/

set_option autoImplicit false

namespace BytecodeSearch

/-! ## Hexadecimal text -/

namespace Hex

theorem digitChar_inj {m n : Nat} (hm : m < 16) (hn : n < 16)
    (h : Nat.digitChar m = Nat.digitChar n) : m = n := by
  have hall : ∀ m < 16, ∀ n < 16, Nat.digitChar m = Nat.digitChar n → m = n := by decide
  exact hall m hm n hn h

/-- The two digits of a byte tell the byte. -/
theorem byte_injective : Function.Injective byte := by
  intro a b h
  have ha := a.toNat_lt
  have hb := b.toNat_lt
  obtain ⟨hhigh, hlow⟩ := List.cons.inj h
  have hdiv : a.toNat / 16 = b.toNat / 16 := digitChar_inj (by omega) (by omega) hhigh
  have hmod : a.toNat % 16 = b.toNat % 16 :=
    digitChar_inj (by omega) (by omega) (List.cons.inj hlow).1
  exact UInt8.toNat_inj.mp (by omega)

theorem flatMap_byte_injective : Function.Injective fun bs : List UInt8 => bs.flatMap byte := by
  intro as
  induction as with
  | nil =>
      intro bs h
      cases bs with
      | nil => rfl
      | cons b bs => cases h
  | cons a as ih =>
      intro bs h
      cases bs with
      | nil => cases h
      | cons b bs =>
          -- every byte has two digits, so the first two digits are those of the first byte
          have happend : byte a ++ as.flatMap byte = byte b ++ bs.flatMap byte := h
          obtain ⟨hfirst, hothers⟩ := List.append_inj happend rfl
          rw [byte_injective hfirst, ih hothers]

/-- The text tells the bytes. -/
theorem bytes_injective : Function.Injective bytes :=
  fun _ _ h => flatMap_byte_injective (String.ofList_injective h)

theorem length_bytes (bs : List UInt8) : (bytes bs).length = 2 * bs.length := by
  have hdigits : ∀ b ∈ bs, (byte b).length = 2 := fun _ _ => rfl
  rw [bytes, String.length_ofList, List.length_flatMap, List.map_congr_left hdigits,
    List.map_const', List.sum_replicate_nat, Nat.mul_comm]

end Hex

/-! ## Collisions -/

namespace Sha3

/-- Two byte strings collide if they differ and have the same digest. -/
def Collide (x y : List UInt8) : Prop := x ≠ y ∧ digest x = digest y

theorem digest_eq_iff {x y : List UInt8} : digest x = digest y ↔ x = y ∨ Collide x y := by
  constructor
  · intro h
    by_cases hxy : x = y
    · exact .inl hxy
    · exact .inr ⟨hxy, h⟩
  · rintro (rfl | ⟨-, h⟩)
    · rfl
    · exact h

theorem length_finish (h : Hasher) : h.finish.length = 32 := by
  rw [Hasher.finish, List.length_map, List.length_range]

end Sha3

/-! ## Fingerprints of images -/

theorem toList_take {α : Type} (xs : Array α) (n : Nat) : (xs.take n).toList = xs.toList.take n := by
  simp

namespace Image

/-- A length past the words stands for all of them, and words past the length do not count. -/
theorem toList_programWords (image : Image) : image.programWords.toList =
    image.words.toList.take (min image.length.toNat image.words.size) := by
  rw [programWords, toList_take, List.take_eq_take_min, Array.length_toList]

theorem size_programWords_lt (image : Image) : image.programWords.size < 2 ^ 32 :=
  calc image.programWords.size
      = (image.words.toList.take (min image.length.toNat image.words.size)).length := by
        rw [← toList_programWords, Array.length_toList]
    _ ≤ image.length.toNat := (List.length_take_le _ _).trans (Nat.min_le_left _ _)
    _ < 2 ^ 32 := image.length.toNat_lt

/-- The words are told by the bytes they are stored as. -/
theorem toBytes_programWords_inj {a b : Image} :
    Codec.toBytes a.programWords = Codec.toBytes b.programWords ↔ a.programWords = b.programWords := by
  constructor
  · intro h
    have hrest : Codec.toBytes a.programWords ++ [] = Codec.toBytes b.programWords ++ [] := by rw [h]
    have ha := a.size_programWords_lt
    have hb := b.size_programWords_lt
    exact (Format.delimits_words (by omega) (by omega) hrest).1
  · intro h
    rw [h]

/-- A fingerprint is the text of the hash of the words as they are stored. -/
theorem fingerprint_eq (image : Image) :
    image.fingerprint = Hex.bytes (Sha3.digest (Codec.toBytes image.programWords)) := by
  rw [fingerprint, Codec.digest_eq]

/-- A fingerprint has sixty-four digits. -/
theorem length_fingerprint (image : Image) : image.fingerprint.length = 64 := by
  rw [fingerprint_eq, Hex.length_bytes, Sha3.digest, Sha3.length_finish]

/-- Fingerprints are the same if the words are, or if the hash collides where they are stored. -/
theorem fingerprint_eq_iff {a b : Image} : a.fingerprint = b.fingerprint ↔
    a.programWords = b.programWords ∨
      Sha3.Collide (Codec.toBytes a.programWords) (Codec.toBytes b.programWords) := by
  rw [fingerprint_eq, fingerprint_eq, Hex.bytes_injective.eq_iff, Sha3.digest_eq_iff,
    toBytes_programWords_inj]

end Image

namespace Program

/-- The image of a program that is not too long has the words of the program. -/
theorem programWords_image {p : Program} (h : p.length < 2 ^ 32) : p.image.programWords = p.words := by
  have hlength : p.image.length.toNat = p.length := UInt32.toNat_ofNat_of_lt' h
  refine Array.toList_inj.mp ?_
  calc p.image.programWords.toList
      = (p.code.take p.length).toList.take p.image.length.toNat := toList_take _ _
    _ = (p.code.toList.take p.length).take p.length := by rw [hlength, toList_take]
    _ = p.code.toList.take p.length := by rw [List.take_take, Nat.min_self]
    _ = p.words.toList := (toList_take _ _).symm

end Program

/-- **Fingerprints identify programs.** Two images have the same fingerprint exactly if the words up to
their lengths are the same, whatever else the images hold, or if the two byte strings that these words are
stored as collide; so if the hash does not collide there, the same fingerprint means the same words. The
images of two programs of fewer than `2 ^ 32` words have the same fingerprint exactly if the programs have
the same words, or their words collide like this. -/
theorem fingerprints_identify :
    (∀ image : Image, image.programWords.toList =
      image.words.toList.take (min image.length.toNat image.words.size)) ∧
    (∀ a b : Image, a.fingerprint = b.fingerprint ↔ a.programWords = b.programWords ∨
      Sha3.Collide (Codec.toBytes a.programWords) (Codec.toBytes b.programWords)) ∧
    ∀ p q : Program, p.length < 2 ^ 32 → q.length < 2 ^ 32 →
      (p.image.fingerprint = q.image.fingerprint ↔ p.words = q.words ∨
        Sha3.Collide (Codec.toBytes p.words) (Codec.toBytes q.words)) := by
  refine ⟨Image.toList_programWords, fun a b => Image.fingerprint_eq_iff, fun p q hp hq => ?_⟩
  rw [Image.fingerprint_eq_iff, Program.programWords_image hp, Program.programWords_image hq]

open Editor in
/-- An edit that is undone leaves a larger buffer and the same fingerprint, words behind the length and a
length past the words do not count, and a program has the fingerprint of the empty one only by a
collision. -/
theorem fingerprints_identify_crowded :
    crowded.length < 2 ^ 32 ∧ crowdedUndone.program.length < 2 ^ 32 ∧ Program.empty.length < 2 ^ 32 ∧
    crowded.capacity < crowdedUndone.program.capacity ∧
    crowded.image.fingerprint = crowdedUndone.program.image.fingerprint ∧
    Image.oneSpare.fingerprint = Image.fingerprint ⟨#[14, 0, 0, 0], 9⟩ ∧
    (crowded.image.fingerprint = Program.empty.image.fingerprint ↔
      Sha3.Collide (Codec.toBytes crowded.words) (Codec.toBytes Program.empty.words)) := by
  obtain ⟨-, himages, hprograms⟩ := fingerprints_identify
  have hcrowded : crowded.length < 2 ^ 32 := by decide
  have hundone : crowdedUndone.program.length < 2 ^ 32 := by decide +kernel
  have hempty : Program.empty.length < 2 ^ 32 := by decide
  have hsame : crowded.words = crowdedUndone.program.words := by decide +kernel
  have hother : crowded.words ≠ Program.empty.words := by decide
  refine ⟨hcrowded, hundone, hempty, by decide +kernel,
    (hprograms _ _ hcrowded hundone).mpr (.inl hsame), (himages _ _).mpr (.inl (by decide)), ?_⟩
  rw [hprograms _ _ hcrowded hempty, or_iff_right hother]

end BytecodeSearch
