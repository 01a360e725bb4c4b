import BytecodeSearch.Proofs.Binary.RoundTrip
import BytecodeSearch.Proofs.Search.Editing

/-!
# Images of programs

An image is read from exactly the bytes that it is written as, if its words are not too many and it
holds a valid program (`ofBytes_eq_ok_iff`). Reading bytes and making a program of an image check the
code in different ways: one looks at the words of the image up to the length, the other at a buffer that
these words are copied to. They accept the same images, since a check looks at nothing but the words of
the program (`Code.isValid_congr`).

So a program that is not too long comes through its image and its bytes with the words it has, and a
longer one is not read back (`canonical_images`).
-/

set_option autoImplicit false

namespace BytecodeSearch

/-! ## The parts of an image -/

instance : Codec.Lawful Version where
  Fits _ := True
  decode_iff {v input rest} := by
    have hbytes : Codec.toBytes v =
        Codec.toBytes v.major ++ (Codec.toBytes v.minor ++ Codec.toBytes v.patch) := by
      simp only [Codec.toBytes_eq_flatten, ← List.flatten_append, ← List.append_assoc]
      rfl
    show (Codec.decode >>= fun major => Codec.decode >>= fun minor => Codec.decode >>= fun patch =>
      pure (⟨major, minor, patch⟩ : Version)) input = .ok v rest ↔ _
    simp only [Decoder.bind_eq_ok_iff, Decoder.pure_eq_ok_iff, Codec.Lawful.decode_iff, hbytes,
      List.append_assoc]
    constructor
    · rintro ⟨_, _, ⟨rfl, -⟩, _, _, ⟨rfl, -⟩, _, _, ⟨rfl, -⟩, rfl, rfl⟩
      exact ⟨rfl, trivial⟩
    · rintro ⟨rfl, -⟩
      exact ⟨v.major, _, ⟨rfl, trivial⟩, v.minor, _, ⟨rfl, trivial⟩, v.patch, _, ⟨rfl, trivial⟩,
        rfl, rfl⟩

namespace Image

theorem codec_toBytes (image : Image) :
    Codec.toBytes image = Codec.toBytes image.words ++ Codec.toBytes image.length := by
  simp only [Codec.toBytes_eq_flatten, ← List.flatten_append]
  rfl

instance : Codec.Lawful Image where
  Fits image := image.words.size ≤ Codec.maxLength
  decode_iff {image input rest} := by
    refine (Codec.decode_record_iff Image.mk words length (fun _ => rfl) (fun _ _ => rfl)
      fun _ _ => rfl).trans ?_
    rw [codec_toBytes]
    exact and_congr_right fun _ =>
      (and_iff_left trivial).trans (and_iff_left fun _ _ => trivial)

theorem part_eq_ok_iff {α : Type} [Codec α] [Codec.Lawful α] {v : α} {input rest : List UInt8} :
    part input = .ok (v, rest) ↔ input = Codec.toBytes v ++ rest ∧ Codec.Lawful.Fits v := by
  rw [← Codec.Lawful.decode_iff]
  unfold part
  cases (Codec.decode input : EStateM.Result DecodeError (List UInt8) α) with
  | ok w mid => simp
  | error e mid => simp

/-! ## Reading images -/

/-- An image is read from its bytes, if its words are not too many and the code in it is valid, and from
nothing else. -/
theorem ofBytes_eq_ok_iff {bytes : List UInt8} {image : Image} :
    ofBytes bytes = .ok image ↔ bytes = image.toBytes ∧ image.words.size ≤ Codec.maxLength ∧
      Code.IsValid image.words image.length.toNat := by
  rw [← Code.validate_eq_ok_iff]
  unfold ofBytes toBytes
  simp only [unless_eq_ok_iff, bind_eq_ok_iff, Prod.exists, part_eq_ok_iff, ne_eq, not_not,
    Bool.not_eq_true, Bool.not_eq_false', List.isEmpty_iff]
  constructor
  · rintro ⟨-, _, _, ⟨rfl, -⟩, rfl, _, _, ⟨rfl, -⟩, rfl, found, _, ⟨rfl, hfits⟩, rfl, hchecked⟩
    cases hvalid : Code.validate found.words found.length.toNat with
    | ok u =>
        rw [hvalid] at hchecked
        obtain rfl := Except.ok.inj hchecked
        exact ⟨by simp only [List.append_assoc, List.append_nil], hfits, hvalid⟩
    | error e =>
        rw [hvalid] at hchecked
        cases hchecked
  · rintro ⟨rfl, hfits, hvalid⟩
    have hroom : ¬ (Codec.toBytes magic ++ Codec.toBytes currentVersion ++
        Codec.toBytes image).length < 6 := by
      have hmagic : (Codec.toBytes magic).length = 6 := by decide
      rw [List.length_append, List.length_append, hmagic]
      omega
    refine ⟨hroom, magic, _, ⟨List.append_assoc .., fun _ _ => trivial⟩, rfl, currentVersion, _,
      ⟨rfl, trivial⟩, rfl, image, [], ⟨(List.append_nil _).symm, hfits⟩, rfl, ?_⟩
    rw [hvalid]
    rfl

/-- An image holds a program exactly if the code in it is valid up to its length. -/
theorem exists_toProgram_eq_ok_iff {image : Image} :
    (∃ p, image.toProgram = .ok p) ↔ Code.IsValid image.words image.length.toNat := by
  unfold toProgram
  by_cases hshort : image.words.size < image.length.toNat
  · rw [if_pos hshort]
    constructor
    · rintro ⟨p, h⟩
      cases h
    · intro hvalid
      exact absurd hvalid.isLength.2 (Nat.not_le.mpr hshort)
  · rw [if_neg hshort]
    have hle : image.length.toNat ≤ image.words.size := Nat.not_lt.mp hshort
    -- the words of the program are those of a buffer with its length
    let p : Program := ⟨image.words, image.length.toNat⟩
    have hwords : image.programWords = p.words := rfl
    have hsize : p.words.size = image.length.toNat := Program.size_words hle
    rw [hwords, Program.exists_ofWords_eq_ok_iff, hsize]
    refine Code.isValid_congr (Nat.le_of_eq hsize.symm) hle fun i hi => ?_
    rw [Program.getD_words]
    exact if_pos hi

theorem words_of_toProgram {image : Image} {p : Program} (h : image.toProgram = .ok p) :
    p.words = image.words.take image.length.toNat :=
  Program.words_of_ofWords (Program.ofWords_of_toProgram h)

/-! ## Sizes -/

theorem length_toBytes (image : Image) : image.toBytes.length = 2 * image.words.size + 21 := by
  have hmagic : (Codec.toBytes magic).length = 6 := by decide
  have hversion : (Codec.toBytes currentVersion).length = 3 := by decide
  have hlength : (Codec.toBytes image.length).length = 4 := by
    rw [Codec.toBytes_eq_flatten]
    rfl
  have hsize : (Codec.toBytes (UInt64.ofNat image.words.size)).length = 8 := by
    rw [Codec.toBytes_eq_flatten]
    rfl
  have hwords : ∀ ws : List Word, (ws.flatMap Codec.toBytes).length = 2 * ws.length := by
    intro ws
    induction ws with
    | nil => rfl
    | cons w ws ih =>
        have hword : (Codec.toBytes w).length = 2 := by
          rw [Codec.toBytes_eq_flatten]
          rfl
        rw [List.flatMap_cons, List.length_append, ih, hword, List.length_cons]
        omega
  rw [toBytes, codec_toBytes, Codec.toBytes_array]
  simp only [List.length_append, hmagic, hversion, hlength, hsize, hwords, Array.length_toList]
  omega

/-! ## There and back -/

theorem isValid_image {p : Program} (hp : Code.IsValid p.code p.length)
    (hsize : p.words.size ≤ Codec.maxLength) :
    p.image.length.toNat = p.length ∧ Code.IsValid p.image.words p.image.length.toNat := by
  have hwords : p.words.size = p.length := Program.size_words hp.isLength.2
  have hsmall : p.length < 2 ^ 32 := by
    rw [← hwords]
    exact Nat.lt_of_le_of_lt hsize (by decide)
  have hlength : p.image.length.toNat = p.length := UInt32.toNat_ofNat_of_lt' hsmall
  refine ⟨hlength, ?_⟩
  rw [hlength]
  refine (Code.isValid_congr hp.isLength.2 (Nat.le_of_eq hwords.symm) fun i hi => ?_).mp hp
  show _ = p.words.getD i 0
  rw [Program.getD_words, if_pos hi]

/-- **The format of images is exact and canonical.** Bytes are read as an image exactly if they are the
bytes of the image, its words are at most `2 ^ 20`, and it gives a program; and then the words of the
program are the words of the image up to its length, whatever is behind them. So any program there is a
way to come by, of at most so many words, is read back from its bytes with the words it has, and a
longer one is refused. -/
theorem canonical_images :
    (∀ bytes image, ofBytes bytes = .ok image ↔
      bytes = image.toBytes ∧ image.words.size ≤ 2 ^ 20 ∧ ∃ p, image.toProgram = .ok p) ∧
    (∀ bytes image, ofBytes bytes = .ok image → image.length.toNat ≤ image.words.size ∧
      ∃ p, image.toProgram = .ok p ∧ p.words = image.words.take image.length.toNat) ∧
    ∀ p, Editor.Obtained p →
      (p.words.size ≤ 2 ^ 20 → ofBytes p.image.toBytes = .ok p.image ∧
        ∃ q, p.image.toProgram = .ok q ∧ q.words = p.words) ∧
      (2 ^ 20 < p.words.size → ∃ e, ofBytes p.image.toBytes = .error e) := by
  refine ⟨fun bytes image => ?_, fun bytes image h => ?_, fun p hp => ⟨fun hsize => ?_,
    fun hlong => ?_⟩⟩
  · rw [ofBytes_eq_ok_iff, exists_toProgram_eq_ok_iff]
    rfl
  · obtain ⟨-, -, hvalid⟩ := ofBytes_eq_ok_iff.mp h
    obtain ⟨p, hprogram⟩ := exists_toProgram_eq_ok_iff.mpr hvalid
    exact ⟨hvalid.isLength.2, p, hprogram, words_of_toProgram hprogram⟩
  · have hsound := hp.isSound
    obtain ⟨hlength, hvalid⟩ := isValid_image hsound.valid hsize
    obtain ⟨q, hprogram⟩ := exists_toProgram_eq_ok_iff.mpr hvalid
    refine ⟨ofBytes_eq_ok_iff.mpr ⟨rfl, hsize, hvalid⟩, q, hprogram, ?_⟩
    rw [words_of_toProgram hprogram, hlength, ← hsound.size_words]
    show p.words.take p.words.size = p.words
    rw [Array.take_eq_extract, Array.extract_size]
  · cases hread : ofBytes p.image.toBytes with
    | error e => exact ⟨e, rfl⟩
    | ok image =>
        -- an image with the same bytes has as many words
        obtain ⟨hbytes, hfits, -⟩ := ofBytes_eq_ok_iff.mp hread
        have hlengths := congrArg List.length hbytes
        rw [length_toBytes, length_toBytes] at hlengths
        have hwords : p.image.words.size = p.words.size := rfl
        have hmax : Codec.maxLength = 2 ^ 20 := rfl
        omega

/-- An image of one slot and one word that is not part of the program. -/
def oneSpare : Image := ⟨#[14, 0, 0, 0, 9], 4⟩

theorem canonical_oneSpare : ofBytes oneSpare.toBytes = .ok oneSpare ∧
    (∃ p, oneSpare.toProgram = .ok p ∧ p.words = #[14, 0, 0, 0]) ∧
    Editor.Obtained Editor.crowded ∧ Editor.crowded.words.size ≤ 2 ^ 20 ∧
    ofBytes Editor.crowded.image.toBytes = .ok Editor.crowded.image := by
  obtain ⟨hexact, hprogram, hback⟩ := canonical_images
  have hsmall : Editor.crowded.words.size ≤ 2 ^ 20 := by decide
  have hread : ofBytes oneSpare.toBytes = .ok oneSpare := by
    refine (hexact _ _).mpr ⟨rfl, by decide, ?_⟩
    rw [exists_toProgram_eq_ok_iff, ← Code.validate_eq_ok_iff]
    decide
  obtain ⟨-, p, hp, hwords⟩ := hprogram _ _ hread
  exact ⟨hread, ⟨p, hp, hwords⟩, Editor.obtained_crowded, hsmall,
    ((hback _ Editor.obtained_crowded).1 hsmall).1⟩

end Image

end BytecodeSearch
