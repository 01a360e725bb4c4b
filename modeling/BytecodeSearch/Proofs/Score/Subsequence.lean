import BytecodeSearch.Search.Case
import Mathlib.Order.Bounds.Basic

/-!
# What the two measures say

`IsLongest xs ys n` says that `n` is the greatest length of a common subsequence of two lists.
`isLongest_lcs` shows that the row-by-row table behind `lcs` computes it: one more word on the
left turns a correct row into a correct row (`Cells.nextCells`). So the score is the greatest number in the
set of lengths of common subsequences (`isGreatest_lcs`), and does not depend on which list stands on
the left (`lcs_comm`).

`contains_iff_infix` reads the pass test as "the expected words stand in the output in one run".
A run is a subsequence, so an output that passes has the greatest score there is
(`lcs_of_infix`, `lcs_le`, `contains_iff_append`).
-/

set_option autoImplicit false

namespace BytecodeSearch.Score

/-! ## Common subsequences -/

/-- `n` is the greatest length of a common subsequence of `xs` and `ys`. -/
structure IsLongest (xs ys : List Word) (n : Nat) : Prop where
  /-- There is a common subsequence of this length. -/
  attained : ∃ zs : List Word, zs.Sublist xs ∧ zs.Sublist ys ∧ zs.length = n
  /-- There is no longer one. -/
  bound : ∀ zs : List Word, zs.Sublist xs → zs.Sublist ys → zs.length ≤ n

theorem IsLongest.unique {xs ys : List Word} {m n : Nat} (hm : IsLongest xs ys m)
    (hn : IsLongest xs ys n) : m = n := by
  obtain ⟨us, hux, huy, rfl⟩ := hm.attained
  obtain ⟨vs, hvx, hvy, rfl⟩ := hn.attained
  exact Nat.le_antisymm (hn.bound us hux huy) (hm.bound vs hvx hvy)

theorem IsLongest.symm {xs ys : List Word} {n : Nat} (h : IsLongest xs ys n) :
    IsLongest ys xs n := by
  obtain ⟨zs, hx, hy, hlen⟩ := h.attained
  exact ⟨⟨zs, hy, hx, hlen⟩, fun us huy hux => h.bound us hux huy⟩

theorem isLongest_nil_left (ys : List Word) : IsLongest [] ys 0 := by
  refine ⟨⟨[], List.nil_sublist _, List.nil_sublist _, rfl⟩, fun zs hx _ => ?_⟩
  rw [List.sublist_nil.mp hx]
  exact Nat.le_refl _

theorem isLongest_nil_right (xs : List Word) : IsLongest xs [] 0 := by
  refine ⟨⟨[], List.nil_sublist _, List.nil_sublist _, rfl⟩, fun zs _ hy => ?_⟩
  rw [List.sublist_nil.mp hy]
  exact Nat.le_refl _

/-- A subsequence of a list with one more word at the end uses that word or does not. -/
theorem sublist_snoc {zs xs : List Word} {x : Word} (h : zs.Sublist (xs ++ [x])) :
    zs.Sublist xs ∨ ∃ ws, zs = ws ++ [x] ∧ ws.Sublist xs := by
  obtain ⟨ws, tail, rfl, hws, htail⟩ := List.sublist_append_iff.mp h
  cases htail with
  | cons _ h => exact .inl (by rw [List.sublist_nil.mp h, List.append_nil]; exact hws)
  | cons_cons _ h => exact .inr ⟨ws, by rw [List.sublist_nil.mp h], hws⟩

/-- The same word at both ends makes the longest common subsequence one longer. -/
theorem IsLongest.snoc_same {xs ys : List Word} {n : Nat} (h : IsLongest xs ys n) (x : Word) :
    IsLongest (xs ++ [x]) (ys ++ [x]) (n + 1) := by
  obtain ⟨zs, hx, hy, hlen⟩ := h.attained
  refine ⟨⟨zs ++ [x], hx.append_right _, hy.append_right _, by simp [hlen]⟩, ?_⟩
  intro us hux huy
  -- dropping the last word of a common subsequence leaves one of the shorter lists
  have hdrop : us.dropLast.Sublist xs ∧ us.dropLast.Sublist ys := by
    constructor
    · rcases sublist_snoc hux with h | ⟨ws, rfl, h⟩
      · exact (List.dropLast_sublist us).trans h
      · simpa using h
    · rcases sublist_snoc huy with h | ⟨ws, rfl, h⟩
      · exact (List.dropLast_sublist us).trans h
      · simpa using h
  have := h.bound us.dropLast hdrop.1 hdrop.2
  rw [List.length_dropLast] at this
  omega

/-- With different words at the ends one of them is not used. -/
theorem IsLongest.snoc_ne {xs ys : List Word} {x y : Word} {m n : Nat} (hxy : x ≠ y)
    (hm : IsLongest xs (ys ++ [y]) m) (hn : IsLongest (xs ++ [x]) ys n) :
    IsLongest (xs ++ [x]) (ys ++ [y]) (max m n) := by
  constructor
  · rcases Nat.le_total m n with hle | hle
    · obtain ⟨zs, hx, hy, hlen⟩ := hn.attained
      exact ⟨zs, hx, hy.trans (List.sublist_append_left _ _), by omega⟩
    · obtain ⟨zs, hx, hy, hlen⟩ := hm.attained
      exact ⟨zs, hx.trans (List.sublist_append_left _ _), hy, by omega⟩
  · intro zs hx hy
    rcases sublist_snoc hx with hx' | ⟨us, rfl, hus⟩
    · have := hm.bound zs hx' hy
      omega
    · rcases sublist_snoc hy with hy' | ⟨vs, hv, hvs⟩
      · have := hn.bound _ hx hy'
        omega
      · have hend : [x] = [y] := (List.append_inj' hv rfl).2
        exact absurd (List.singleton_inj.mp hend) hxy

/-! ## The table -/

/-- The cells of the row for `xs` that stand over `ys`, behind the columns of `pre`. -/
inductive Cells (xs : List Word) : List Word → List Word → List Nat → Prop where
  /-- Over no columns stand no cells. -/
  | nil (pre : List Word) : Cells xs pre [] []
  /-- A cell over `y` counts for all columns up to it. -/
  | cons {pre : List Word} {y : Word} {ys : List Word} {n : Nat} {cells : List Nat}
      (cell : IsLongest xs (pre ++ [y]) n) (rest : Cells xs (pre ++ [y]) ys cells) :
      Cells xs pre (y :: ys) (n :: cells)

/-- The row for no words is zero. -/
theorem cells_replicate (pre ys : List Word) :
    Cells [] pre ys (List.replicate ys.length 0) := by
  induction ys generalizing pre with
  | nil => exact .nil pre
  | cons y ys ih => exact .cons (isLongest_nil_left _) (ih (pre ++ [y]))

/-- **The step of the table**: from the cells of a row come those of the row with one more
word. -/
theorem Cells.nextCells {xs pre ys : List Word} {above : List Nat} (x : Word)
    (h : Cells xs pre ys above) {diagonal left : Nat} (hd : IsLongest xs pre diagonal)
    (hl : IsLongest (xs ++ [x]) pre left) :
    Cells (xs ++ [x]) pre ys (Score.nextCells x diagonal left ys above) := by
  induction h generalizing diagonal left with
  | nil pre => exact .nil pre
  | @cons pre y ys up above cell rest ih =>
      simp only [Score.nextCells]
      have hcell : IsLongest (xs ++ [x]) (pre ++ [y])
          (if x = y then diagonal + 1 else max up left) := by
        by_cases hxy : x = y
        · subst hxy
          rw [if_pos rfl]
          exact hd.snoc_same x
        · rw [if_neg hxy]
          exact .snoc_ne hxy cell hl
      exact .cons hcell (ih cell hcell)

theorem cells_foldl (ys todo : List Word) {xs : List Word} {above : List Nat}
    (h : Cells xs [] ys above) :
    Cells (xs ++ todo) [] ys
      (todo.foldl (fun above x => Score.nextCells x 0 0 ys above) above) := by
  induction todo generalizing xs above with
  | nil => simpa using h
  | cons x todo ih =>
      have := ih (h.nextCells x (isLongest_nil_right _) (isLongest_nil_right _))
      simpa using this

theorem cells_row (ys xs : List Word) : Cells xs [] ys (row ys xs) :=
  cells_foldl ys xs (cells_replicate [] ys)

/-- The last cell counts for all columns. -/
theorem Cells.getLastD {xs pre ys : List Word} {cells : List Nat} (h : Cells xs pre ys cells)
    {d : Nat} (hd : IsLongest xs pre d) : IsLongest xs (pre ++ ys) (cells.getLastD d) := by
  induction h generalizing d with
  | nil pre => simpa using hd
  | cons cell rest ih =>
      rw [List.getLastD_cons, List.append_cons]
      exact ih cell

/-! ## The measures -/

/-- The score is the greatest length of a common subsequence. -/
theorem isLongest_lcs (output expected : Array Word) :
    IsLongest output.toList expected.toList (lcs output expected) := by
  simpa [lcs] using (cells_row expected.toList output.toList).getLastD (isLongest_nil_right _)

/-- **The score is the length of a longest common subsequence**: the greatest of the lengths of all
lists whose words come in both lists in order, wherever they stand. -/
theorem isGreatest_lcs (xs ys : Array Word) :
    IsGreatest
      {n | ∃ zs : List Word, zs.Sublist xs.toList ∧ zs.Sublist ys.toList ∧ zs.length = n}
      (lcs xs ys) := by
  have h := isLongest_lcs xs ys
  refine ⟨h.attained, ?_⟩
  rintro _ ⟨zs, hx, hy, rfl⟩
  exact h.bound zs hx hy

/-- Output and expected words may change sides. -/
theorem lcs_comm (xs ys : Array Word) : lcs xs ys = lcs ys xs :=
  (isLongest_lcs xs ys).unique (isLongest_lcs ys xs).symm

/-- No score is above the number of expected words. -/
theorem lcs_le (output expected : Array Word) : lcs output expected ≤ expected.size := by
  obtain ⟨zs, -, hy, hlen⟩ := (isLongest_lcs output expected).attained
  rw [← hlen, ← Array.length_toList]
  exact hy.length_le

/-- More output scores no less. -/
theorem lcs_mono {output output' : Array Word} (h : output.toList.Sublist output'.toList)
    (expected : Array Word) : lcs output expected ≤ lcs output' expected := by
  obtain ⟨zs, hx, hy, hlen⟩ := (isLongest_lcs output expected).attained
  rw [← hlen]
  exact (isLongest_lcs output' expected).bound zs (hx.trans h) hy

/-- The greatest score means that the expected words come in the output in order. -/
theorem lcs_eq_size_iff {output expected : Array Word} :
    lcs output expected = expected.size ↔ expected.toList.Sublist output.toList := by
  have h := isLongest_lcs output expected
  constructor
  · intro hfull
    obtain ⟨zs, hx, hy, hlen⟩ := h.attained
    rw [hfull, ← Array.length_toList] at hlen
    rwa [hy.eq_of_length hlen] at hx
  · intro hsub
    have := h.bound _ hsub (List.Sublist.refl _)
    rw [Array.length_toList] at this
    exact Nat.le_antisymm (lcs_le output expected) this

theorem hasRun_iff_infix {ys xs : List Word} : hasRun ys xs = true ↔ ys <:+: xs := by
  induction xs with
  | nil => simp [hasRun]
  | cons x xs ih =>
      rw [hasRun, Bool.or_eq_true, ih, List.isPrefixOf_iff_prefix, List.infix_cons_iff]

/-- The pass test asks for the expected words in one run. -/
theorem contains_iff_infix {output expected : Array Word} :
    contains output expected = true ↔ expected.toList <:+: output.toList :=
  hasRun_iff_infix

/-- An output that passes has the greatest score. -/
theorem lcs_of_infix {output expected : Array Word}
    (h : expected.toList <:+: output.toList) : lcs output expected = expected.size :=
  lcs_eq_size_iff.mpr h.sublist

/-- At most one expected word that comes in order comes in one run. -/
theorem infix_of_sublist_of_length_le_one {ys xs : List Word} (hlen : ys.length ≤ 1)
    (h : ys.Sublist xs) : ys <:+: xs := by
  match ys, hlen with
  | [], _ => exact List.nil_infix
  | [y], _ =>
      obtain ⟨pre, post, rfl⟩ := List.append_of_mem (List.singleton_sublist.mp h)
      exact ⟨pre, post, by simp⟩

/-- An output with the expected words in one run is these words with others before and behind them. -/
theorem infix_iff_append {output expected : Array Word} :
    expected.toList <:+: output.toList ↔ ∃ before behind, output = before ++ expected ++ behind := by
  constructor
  · rintro ⟨before, behind, h⟩
    refine ⟨before.toArray, behind.toArray, Array.toList_inj.mp ?_⟩
    rw [Array.toList_append, Array.toList_append, List.toList_toArray, List.toList_toArray, h]
  · rintro ⟨before, behind, rfl⟩
    exact ⟨before.toList, behind.toList, by rw [Array.toList_append, Array.toList_append]⟩

/-- The greatest score that any output has is the number of expected words: the words themselves have
it. -/
theorem isGreatest_range_lcs (expected : Array Word) :
    IsGreatest (Set.range fun output => lcs output expected) expected.size := by
  constructor
  · exact ⟨expected, lcs_of_infix List.infix_rfl⟩
  · rintro _ ⟨output, rfl⟩
    exact lcs_le output expected

/-- **An output passes exactly if the expected words stand in it in one run, and then no score is
better.** An output that passes is the expected words with some words before and some behind them, if any.
The greatest score of all outputs is the number of expected words, and an output that passes has it. -/
theorem contains_iff_append (output expected : Array Word) :
    (contains output expected = true ↔ ∃ before behind, output = before ++ expected ++ behind) ∧
      IsGreatest (Set.range fun xs => lcs xs expected) expected.size ∧
        (contains output expected = true → lcs output expected = expected.size) := by
  refine ⟨?_, isGreatest_range_lcs expected, fun h => ?_⟩
  · exact contains_iff_infix.trans infix_iff_append
  · have hrun := contains_iff_infix.mp h
    exact lcs_of_infix hrun

/-- A run at the end of the output, where an expected word also stands alone before it. -/
theorem contains_atEnd : contains #[1, 0, 1, 3] #[1, 3] = true ∧ lcs #[1, 0, 1, 3] #[1, 3] = 2 ∧
    ∀ output, lcs output #[1, 3] ≤ 2 := by
  obtain ⟨-, hgreatest, hfull⟩ := contains_iff_append #[1, 0, 1, 3] #[1, 3]
  have hpasses : contains #[1, 0, 1, 3] #[1, 3] = true := by decide
  exact ⟨hpasses, hfull hpasses, fun output => hgreatest.2 ⟨output, rfl⟩⟩

end BytecodeSearch.Score
