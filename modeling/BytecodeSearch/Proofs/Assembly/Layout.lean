import BytecodeSearch.Assembly.Statement

/-!
# Tokens on a line

`LaidOut ts line` says that the tokens `ts` stand on `line` in order: with a gap of commas and white
space before the first and after the last of them, which may be empty, with such a gap that is not empty
between two of them, and with a comment at the end or none. Cutting a line gives the tokens that are
laid out on it (`tokens_of_laidOut`).

The lines of a text end with a line feed, and a line has none inside (`splitOn_lines`).
-/

set_option autoImplicit false

namespace BytecodeSearch.Assembly

/-! ## Lines -/

/-- A run of commas and white space. -/
def IsGap (gap : List Char) : Prop := ∀ c ∈ gap, isSeparator c = true

instance (gap : List Char) : Decidable (IsGap gap) :=
  decidable_of_iff (gap.all isSeparator = true) List.all_eq_true

/-- Characters that stand together on a line: one or more, with no white space, no comma and no `#`. -/
def IsToken (t : Token) : Prop := t ≠ [] ∧ ∀ c ∈ t, isSeparator c = false ∧ c ≠ '#'

instance (t : Token) : Decidable (IsToken t) :=
  decidable_of_iff ((!t.isEmpty && t.all fun c => !isSeparator c && c != '#') = true)
    (by simp [IsToken])

theorem IsToken.append {t u : Token} (ht : IsToken t) (hu : IsToken u) : IsToken (t ++ u) := by
  refine ⟨List.append_ne_nil_of_left_ne_nil ht.1 u, fun c hc => ?_⟩
  rcases List.mem_append.mp hc with hc | hc
  · exact ht.2 c hc
  · exact hu.2 c hc

theorem IsToken.newline_notMem {t : Token} (h : IsToken t) : '\n' ∉ t := by
  intro hmem
  have hsep := (h.2 '\n' hmem).1
  revert hsep
  decide

/-- Nothing, or a comment to the end of the line. -/
def IsComment (cs : List Char) : Prop := cs = [] ∨ ∃ text, cs = '#' :: text

/-- Whether a token may end where these characters begin. -/
def EndsToken (cs : List Char) : Prop := ∀ c ∈ cs.head?, isSeparator c = true ∨ c = '#'

/-- The tokens stand on the line, in order. -/
inductive LaidOut : List Token → List Char → Prop where
  /-- A line without tokens. -/
  | blank {gap comment : List Char} (hgap : IsGap gap) (hcomment : IsComment comment) :
      LaidOut [] (gap ++ comment)
  /-- A token before what is laid out behind it. -/
  | token {gap rest : List Char} {t : Token} {ts : List Token} (hgap : IsGap gap) (ht : IsToken t)
      (hend : EndsToken rest) (hrest : LaidOut ts rest) : LaidOut (t :: ts) (gap ++ t ++ rest)

theorem ne_hash_of_isSeparator {c : Char} (h : isSeparator c = true) : c ≠ '#' := by
  rintro rfl
  revert h
  decide

theorem tokens_nil : tokens [] = [] := rfl

theorem tokens_hash (text : List Char) : tokens ('#' :: text) = [] := rfl

/-- A separator before a text is in no token. -/
theorem tokens_cons_separator {c : Char} (h : isSeparator c = true) (cs : List Char) :
    tokens (c :: cs) = tokens cs := by
  have hhash : (c != '#') = true := by simpa using ne_hash_of_isSeparator h
  simp only [tokens, List.takeWhile_cons, hhash, if_true, List.splitOnP_cons_eq_if_modifyHead, h]
  rfl

theorem tokens_append_gap {gap : List Char} (h : IsGap gap) (cs : List Char) :
    tokens (gap ++ cs) = tokens cs := by
  induction gap with
  | nil => rfl
  | cons c gap ih =>
      obtain ⟨hc, hgap⟩ := List.forall_mem_cons.mp h
      rw [List.cons_append, tokens_cons_separator hc, ih hgap]

/-- A token is cut off where it may end. -/
theorem tokens_append_token {t : Token} (ht : IsToken t) {rest : List Char} (hend : EndsToken rest) :
    tokens (t ++ rest) = t :: tokens rest := by
  obtain ⟨hne, hchars⟩ := ht
  have hkeeps : ∀ c ∈ t, (c != '#') = true := fun c hc => by simpa using (hchars c hc).2
  have hwhole : ∀ c ∈ t, isSeparator c = false := fun c hc => (hchars c hc).1
  have hfull : (!t.isEmpty) = true := by simpa using hne
  have halone : (List.splitOnP isSeparator t).filter (fun t => !t.isEmpty) = [t] := by
    simp only [List.splitOnP_eq_singleton hwhole, List.filter_cons, hfull, if_true, List.filter_nil]
  rw [tokens, List.takeWhile_append_of_pos hkeeps]
  cases rest with
  | nil =>
      rw [List.takeWhile_nil, List.append_nil, halone, tokens_nil]
  | cons c cs =>
      rcases hend c rfl with hsep | rfl
      · have hhash : (c != '#') = true := by simpa using ne_hash_of_isSeparator hsep
        simp only [List.takeWhile_cons, hhash, if_true, List.filter_cons, hfull,
          List.splitOnP_append_cons_of_forall_mem hwhole c hsep, tokens_cons_separator hsep]
        rfl
      · simp only [List.takeWhile_cons, bne_self_eq_false, Bool.false_eq_true, if_false,
          List.append_nil, halone, tokens_hash]

/-- Cutting a line gives the tokens that are laid out on it. -/
theorem tokens_of_laidOut {ts : List Token} {line : List Char} (h : LaidOut ts line) :
    tokens line = ts := by
  induction h with
  | blank hgap hcomment =>
      rw [tokens_append_gap hgap]
      rcases hcomment with rfl | ⟨text, rfl⟩
      · exact tokens_nil
      · exact tokens_hash text
  | token hgap ht hend _ ih =>
      rw [List.append_assoc, tokens_append_gap hgap, tokens_append_token ht hend, ih]

/-! ## Every line is laid out -/

theorem isGap_nil : IsGap [] := fun _ h => nomatch h

theorem isGap_cons {c : Char} {gap : List Char} (hc : isSeparator c = true) (hgap : IsGap gap) :
    IsGap (c :: gap) := List.forall_mem_cons.mpr ⟨hc, hgap⟩

theorem endsToken_cons {c : Char} (h : isSeparator c = true ∨ c = '#') (cs : List Char) :
    EndsToken (c :: cs) := by
  rintro _ ⟨⟩
  exact h

theorem EndsToken.of_gap {gap rest : List Char} (hgap : IsGap gap) (hrest : EndsToken rest) :
    EndsToken (gap ++ rest) := by
  cases gap with
  | nil => exact hrest
  | cons c gap => exact endsToken_cons (.inl (hgap c List.mem_cons_self)) _

theorem IsComment.endsToken {comment : List Char} (h : IsComment comment) : EndsToken comment := by
  rcases h with rfl | ⟨text, rfl⟩
  · rintro _ ⟨⟩
  · exact endsToken_cons (.inr rfl) text

/-- A separator before a line becomes a part of its first gap. -/
theorem LaidOut.cons_separator {c : Char} {ts : List Token} {line : List Char}
    (hc : isSeparator c = true) (h : LaidOut ts line) : LaidOut ts (c :: line) := by
  cases h with
  | blank hgap hcomment => exact .blank (isGap_cons hc hgap) hcomment
  | token hgap ht hend hrest => exact .token (isGap_cons hc hgap) ht hend hrest

/-- Any other character before a line becomes a part of its first token, or a token of its own. -/
theorem LaidOut.exists_cons {c : Char} {ts : List Token} {line : List Char} (hc : IsToken [c])
    (h : LaidOut ts line) : ∃ ts', LaidOut ts' (c :: line) := by
  cases h with
  | blank hgap hcomment =>
      exact ⟨_, .token isGap_nil hc (hcomment.endsToken.of_gap hgap) (.blank hgap hcomment)⟩
  | @token gap rest t ts hgap ht hend hrest =>
      cases gap with
      | nil =>
          refine ⟨_, .token isGap_nil ⟨List.cons_ne_nil c t, ?_⟩ hend hrest⟩
          exact List.forall_mem_cons.mpr ⟨hc.2 c List.mem_cons_self, ht.2⟩
      | cons d gap =>
          exact ⟨_, .token isGap_nil hc (endsToken_cons (.inl (hgap d List.mem_cons_self)) _)
            (.token hgap ht hend hrest)⟩

theorem exists_laidOut (line : List Char) : ∃ ts, LaidOut ts line := by
  induction line with
  | nil => exact ⟨[], .blank isGap_nil (.inl rfl)⟩
  | cons c line ih =>
      obtain ⟨ts, h⟩ := ih
      by_cases hhash : c = '#'
      · exact ⟨[], .blank isGap_nil (.inr ⟨line, by rw [hhash]⟩)⟩
      · cases hsep : isSeparator c with
        | true => exact ⟨ts, h.cons_separator hsep⟩
        | false =>
            refine h.exists_cons ⟨List.cons_ne_nil c [], fun d hd => ?_⟩
            obtain rfl := List.mem_singleton.mp hd
            exact ⟨hsep, hhash⟩

/-- Cutting a line gives exactly what is laid out on it. -/
theorem laidOut_iff {ts : List Token} {line : List Char} : LaidOut ts line ↔ tokens line = ts := by
  constructor
  · exact tokens_of_laidOut
  · rintro rfl
    obtain ⟨ts, h⟩ := exists_laidOut line
    rwa [tokens_of_laidOut h]

instance (ts : List Token) (line : List Char) : Decidable (LaidOut ts line) :=
  decidable_of_iff _ laidOut_iff.symm

/-! ## Texts -/

/-- Lines that are each ended by a line feed are what a text is cut into, with an empty line behind
them. -/
theorem splitOn_lines {lines : List (List Char)} (h : ∀ line ∈ lines, '\n' ∉ line) :
    (lines.flatMap (· ++ ['\n'])).splitOn '\n' = lines ++ [[]] := by
  induction lines with
  | nil => rfl
  | cons line lines ih =>
      obtain ⟨hline, hlines⟩ := List.forall_mem_cons.mp h
      have hinside : ∀ c ∈ line, (c == '\n') = false := by
        intro c hc
        simp only [beq_eq_false_iff_ne, ne_eq]
        rintro rfl
        exact hline hc
      rw [List.flatMap_cons, List.append_assoc, List.singleton_append, List.splitOn,
        List.splitOnP_append_cons_of_forall_mem hinside '\n' rfl, List.cons_append, ← ih hlines]
      rfl

end BytecodeSearch.Assembly
