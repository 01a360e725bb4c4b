import BytecodeSearch.Program.Image
import BytecodeSearch.Proofs.Search.Editing

/-!
# Drafts

A draft is an editor as one would think of it: some words and, while the last edit can be undone,
a copy of all the words before it. An editor does not copy: it remembers the one slot an edit has
overwritten and the length before. It does the same as the draft with its words, call by call
(`matches_call`), so no sequence of calls tells them apart (`words_of_calls`), whether an edit
overwrites a slot, appends one to the words or makes the buffer grow.
-/

set_option autoImplicit false

namespace BytecodeSearch

/-- Two states that every call keeps alike give the same back under any calls. -/
theorem Call.runAll_alike {α β ρ : Type} {f : Call → α → ρ → Reply × α × ρ}
    {h : Call → β → ρ → Reply × β × ρ} {R : α → β → Prop}
    (keeps : ∀ c a b g, R a b →
      (f c a g).1 = (h c b g).1 ∧ R (f c a g).2.1 (h c b g).2.1 ∧ (f c a g).2.2 = (h c b g).2.2)
    (cs : List Call) (a : α) (b : β) (g : ρ) (hab : R a b) :
    (runAll f cs a g).1 = (runAll h cs b g).1 ∧
      R (runAll f cs a g).2.1 (runAll h cs b g).2.1 ∧
      (runAll f cs a g).2.2 = (runAll h cs b g).2.2 := by
  induction cs generalizing a b g with
  | nil => exact ⟨rfl, hab, rfl⟩
  | cons c cs ih =>
      obtain ⟨hreply, hnext, hg⟩ := keeps c a b g hab
      obtain ⟨hreplies, hlast, hgs⟩ := ih _ _ (f c a g).2.2 hnext
      simp only [runAll, hreply, ← hg]
      exact ⟨congrArg _ hreplies, hlast, hgs⟩

/-! ## Edits of words -/

/-- The words with a slot replaced, or put behind them. -/
def Edit.applyTo (edit : Edit) (ws : Array Word) : Array Word :=
  ws.take edit.pos ++ edit.slot.words.toArray ++ ws.drop (edit.pos + slotWidth)

/-- Words, and the words before the last edit if that can be undone. -/
structure Draft where
  words : Array Word
  undo : Option (Array Word)

namespace Draft

/-- A draft with nothing to undo. -/
def ofWords (ws : Array Word) : Draft := ⟨ws, none⟩

/-- Draws an edit and applies it to the words, after copying them. -/
def mutate {ρ : Type} [Generator ρ] (d : Draft) (speed registers : Nat) (g : ρ) :
    Nat × Draft × ρ :=
  let (edit, g) := (Edit.choose d.words.size speed registers).run g
  (edit.pos, ⟨edit.applyTo d.words, some d.words⟩, g)

/-- Brings the copy back, and tells whether there was one. -/
def rollback (d : Draft) : Draft × Bool :=
  match d.undo with
  | none => (d, false)
  | some ws => (⟨ws, none⟩, true)

/-- Throws the copy away. -/
def commit (d : Draft) : Draft := { d with undo := none }

/-- Makes one call. -/
def call {ρ : Type} [Generator ρ] (speed : Nat) (c : Call) (d : Draft) (g : ρ) :
    Reply × Draft × ρ :=
  match c with
  | .mutate registers =>
      let (pos, d, g) := d.mutate speed registers g
      (.wrote pos, d, g)
  | .rollback =>
      let (d, was) := d.rollback
      (.undone was, d, g)
  | .commit => (.kept, d.commit, g)

/-- The image of the words. -/
def image (d : Draft) : Image := ⟨d.words, UInt32.ofNat d.words.size⟩

end Draft

/-! ## The words of an edited program -/

/-- Behind the words of a sound program both they and the buffer read as zero. -/
theorem Program.IsSound.getD_words {p : Program} (hp : p.IsSound) (i : Nat) :
    p.words.getD i 0 = p.code.getD i 0 := by
  rw [Program.getD_words]
  by_cases hi : i < p.length
  · rw [if_pos hi]
  · rw [if_neg hi, hp.spare i (Nat.le_of_not_lt hi)]

theorem Program.IsSound.words_ext {p : Program} {ws : Array Word} (hp : p.IsSound)
    (hsize : ws.size = p.length) (h : ∀ i, p.code.getD i 0 = ws.getD i 0) : p.words = ws := by
  refine ext_getD (hp.size_words.trans hsize.symm) fun i => ?_
  rw [hp.getD_words, h]

namespace Edit

variable {edit : Edit} {ws : Array Word}

theorem size_applyTo {registers : Nat} (hedit : edit.IsLegal ws.size registers)
    (hsize : ws.size % slotWidth = 0) : (edit.applyTo ws).size = edit.length := by
  have haligned := hedit.aligned
  have hplace := hedit.place
  have hslot : edit.slot.words.toArray.size = slotWidth := rfl
  simp only [applyTo, Array.size_append, Array.take_eq_extract, Array.drop_eq_extract,
    Array.size_extract, hslot]
  simp only [IsPlace, slotWidth] at *
  omega

theorem getD_applyTo (hpos : edit.pos ≤ ws.size) (i : Nat) :
    (edit.applyTo ws).getD i 0 =
      if edit.pos ≤ i ∧ i < edit.pos + slotWidth then edit.slot.words.getD (i - edit.pos) 0
      else ws.getD i 0 := by
  have hslot : edit.slot.words.toArray.size = slotWidth := rfl
  have hfront : (ws.take edit.pos).size = edit.pos := by
    rw [Array.take_eq_extract, Array.size_extract]
    omega
  simp only [applyTo, Array.getD_eq_getD_getElem?, List.getD_eq_getElem?_getD,
    Array.getElem?_append, Array.size_append, hfront, hslot]
  -- in front of the slot, inside it, and behind it
  rcases Nat.lt_or_ge i edit.pos with hbefore | hfrom
  · rw [if_pos (by omega), if_pos hbefore, if_neg (by omega), Array.take_eq_extract,
      Array.getElem?_extract, if_pos (by omega), Nat.zero_add]
  · rcases Nat.lt_or_ge i (edit.pos + slotWidth) with hinside | hbehind
    · rw [if_pos hinside, if_neg (by omega), if_pos ⟨hfrom, hinside⟩, List.getElem?_toArray]
    · rw [if_neg (by omega), if_neg (by omega), Array.drop_eq_extract, Array.getElem?_extract]
      have hsub : edit.pos + slotWidth + (i - (edit.pos + slotWidth)) = i := by omega
      rw [hsub]
      by_cases hi : i < ws.size
      · rw [if_pos (by omega)]
      · rw [if_neg (by omega), Array.getElem?_eq_none (by omega)]

end Edit

namespace Editor

variable {e : Editor} {edit : Edit} {registers : Nat}

theorem words_apply (he : e.program.IsSound)
    (hedit : edit.IsLegal e.program.length registers) (hregisters : registers ≤ registerCount) :
    (e.apply edit).program.words = edit.applyTo e.program.words := by
  have hsize := he.size_words
  have hlegal : edit.IsLegal e.program.words.size registers := hsize.symm ▸ hedit
  refine (isSound_apply he hedit hregisters).program.words_ext ?_ fun i => ?_
  · have haligned : e.program.words.size % slotWidth = 0 := hsize.symm ▸ he.valid.isLength.1
    exact Edit.size_applyTo hlegal haligned
  · have hpos : edit.pos ≤ e.program.words.size := by
      have hplace := hlegal.place
      simp only [Edit.IsPlace] at hplace
      omega
    have hwrite : (e.apply edit).program = e.program.write edit.pos edit.slot edit.length := rfl
    rw [hwrite, Program.getD_write, Edit.getD_applyTo hpos, he.getD_words]

theorem words_rollback_apply (he : e.program.IsSound)
    (hedit : edit.IsLegal e.program.length registers) (hregisters : registers ≤ registerCount) :
    (e.apply edit).rollback.1.program.words = e.program.words := by
  refine (isSound_apply he hedit hregisters).undone.words_ext ?_ fun i => ?_
  · rw [length_rollback_apply, he.size_words]
  · rw [getD_rollback_apply he hedit.aligned, he.getD_words]

/-- Undoing an edit leaves the buffer as it was, with zeros behind it where it has grown. -/
theorem exists_code_rollback_apply (he : e.program.IsSound) (hpos : edit.pos % slotWidth = 0) :
    ∃ n, (e.apply edit).rollback.1.program.code = e.program.code ++ Array.replicate n 0 :=
  ⟨_, eq_append_zeros (size_le_size_rollback_apply e edit) (getD_rollback_apply he hpos)⟩

/-! ## Editors and drafts -/

/-- The draft stands for a sound editor: it has the words of its program, and its copy is the words
that undoing would bring back. -/
structure Matches (e : Editor) (d : Draft) : Prop where
  sound : e.IsSound
  words : e.program.words = d.words
  undo : e.undo.map (fun _ => e.rollback.1.program.words) = d.undo

theorem matches_ofProgram {p : Program} (hp : p.IsSound) :
    Matches (ofProgram p) (Draft.ofWords p.words) :=
  ⟨isSound_ofProgram hp, rfl, rfl⟩

variable {d : Draft}

theorem matches_commit (h : Matches e d) : Matches e.commit d.commit :=
  ⟨⟨h.sound.program, h.sound.program⟩, h.words, rfl⟩

theorem matches_rollback (h : Matches e d) :
    e.rollback.2 = d.rollback.2 ∧ Matches e.rollback.1 d.rollback.1 := by
  have hcopy := h.undo
  have hundone : e.rollback.1.IsSound := ⟨h.sound.undone, by
    rw [rollback_rollback]
    exact h.sound.undone⟩
  cases hundo : e.undo with
  | none =>
      -- nothing to undo on either side
      rw [hundo, Option.map_none] at hcopy
      have he : e.rollback = (e, false) := by simp only [rollback, hundo]
      have hd : d.rollback = (d, false) := by simp only [Draft.rollback, ← hcopy]
      rw [he, hd]
      exact ⟨rfl, h⟩
  | some u =>
      rw [hundo, Option.map_some] at hcopy
      have hd : d.rollback = (⟨e.rollback.1.program.words, none⟩, true) := by
        simp only [Draft.rollback, ← hcopy]
      have hdone : e.rollback.1.undo = none ∧ e.rollback.2 = true := by
        simp only [rollback, hundo, and_self]
      rw [hd]
      exact ⟨hdone.2, hundone, rfl, by rw [hdone.1]; rfl⟩

section

variable {ρ : Type} [Generator ρ]

theorem matches_mutate (h : Matches e d) (speed registers : Nat) (g : ρ) :
    (e.mutate speed registers g).1 = (d.mutate speed registers g).1 ∧
      Matches (e.mutate speed registers g).2.1 (d.mutate speed registers g).2.1 ∧
      (e.mutate speed registers g).2.2 = (d.mutate speed registers g).2.2 := by
  have he := h.sound.program
  have hsize : d.words.size = e.program.length := by rw [← h.words, he.size_words]
  -- both draw the same edit, as their words are as many
  have hedit := (Edit.ensures_choose he.valid.isLength.1 speed registers).run g
  have hregisters := Edit.clampRegisters_le registers
  simp only [mutate, Draft.mutate, hsize, true_and, and_true]
  refine ⟨isSound_apply he hedit hregisters, ?_, ?_⟩
  · rw [words_apply he hedit hregisters, h.words]
  · rw [words_rollback_apply he hedit hregisters, h.words]
    rfl

/-- Every call gives the same back, and the draft goes on standing for the editor. -/
theorem matches_call (speed : Nat) (c : Call) (g : ρ) (h : Matches e d) :
    (e.call speed c g).1 = (d.call speed c g).1 ∧
      Matches (e.call speed c g).2.1 (d.call speed c g).2.1 ∧
      (e.call speed c g).2.2 = (d.call speed c g).2.2 := by
  cases c with
  | mutate registers =>
      obtain ⟨hpos, hnext, hg⟩ := matches_mutate h speed registers g
      exact ⟨congrArg _ hpos, hnext, hg⟩
  | rollback =>
      obtain ⟨hwas, hnext⟩ := matches_rollback h
      exact ⟨congrArg _ hwas, hnext, rfl⟩
  | commit => exact ⟨rfl, matches_commit h, rfl⟩

theorem Matches.image (h : Matches e d) : e.program.image = d.image := by
  have hsize : e.program.length = d.words.size := by rw [← h.words, h.sound.program.size_words]
  rw [Program.image, Draft.image, h.words, hsize]

/-- **An editor is a draft.** Under any calls an editor and the draft with its words give the same
back and use up the same random words; the words of the program are those of the draft, and so its
length, image and fingerprint. Undoing an edit gives back the buffer as a whole: it is as it was,
with zeros behind it if it has grown. -/
theorem words_of_calls {p : Program} (hp : Obtained p) (speed : Nat) (cs : List Call) (g : ρ) :
    let edited := Call.runAll (call speed) cs (ofProgram p) g
    let drafted := Call.runAll (Draft.call speed) cs (Draft.ofWords p.words) g
    edited.1 = drafted.1 ∧ edited.2.2 = drafted.2.2 ∧
      edited.2.1.program.words = drafted.2.1.words ∧
      edited.2.1.program.length = drafted.2.1.words.size ∧
      edited.2.1.program.image = drafted.2.1.image ∧
      edited.2.1.program.image.fingerprint = drafted.2.1.image.fingerprint ∧
      ∀ registers (g' : ρ), ∃ n,
        (edited.2.1.mutate speed registers g').2.1.rollback.1.program.code =
          edited.2.1.program.code ++ Array.replicate n 0 := by
  intro edited drafted
  obtain ⟨hreplies, hmatches, hg⟩ := Call.runAll_alike (R := Matches)
    (fun c _ _ g h => matches_call speed c g h) cs _ _ g (matches_ofProgram hp.isSound)
  have hsound := hmatches.sound
  have hsize := hsound.program.size_words
  have himage := hmatches.image
  refine ⟨hreplies, hg, hmatches.words, ?_, himage, congrArg _ himage, fun registers g' => ?_⟩
  · rw [← hsize, hmatches.words]
  · obtain ⟨edit, g'', hedit, hmutate⟩ := hsound.exists_mutate_eq speed registers g'
    rw [hmutate]
    exact exists_code_rollback_apply hsound.program hedit.aligned

theorem words_crowded : Obtained crowded ∧
    let edited := Call.runAll (call 1) [.mutate 8, .rollback, .rollback] (ofProgram crowded)
      appending
    edited.1 = [.wrote 64, .undone true, .undone false] ∧
      edited.2.1.program.words = crowded.words := by
  -- the draft is easy to compute, and the theorem says that the editor does the same
  have hdrafted :
      let drafted := Call.runAll (Draft.call 1) [.mutate 8, .rollback, .rollback]
        (Draft.ofWords crowded.words) appending
      drafted.1 = [.wrote 64, .undone true, .undone false] ∧
        drafted.2.1.words = crowded.words := by decide +kernel
  obtain ⟨hsame, -, hwords, -⟩ :=
    words_of_calls obtained_crowded 1 [.mutate 8, .rollback, .rollback] appending
  exact ⟨obtained_crowded, hsame.trans hdrafted.1, hwords.trans hdrafted.2⟩

end

end Editor

end BytecodeSearch
