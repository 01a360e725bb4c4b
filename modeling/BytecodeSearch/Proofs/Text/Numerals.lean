import BytecodeSearch.Text.Blank
import BytecodeSearch.Text.Numeral
import Mathlib.Data.List.DropRight

/-!
# What is a numeral

`IsNumeral n cs` says that the characters `cs` are a numeral for `n`: one or more decimal digits, with
leading zeros or without, and a plus sign before them or none. Reading accepts exactly the numerals of
the numbers below its bound (`read?_eq_some_iff`), and with white space around them if the text is trimmed
first (`read?_trim_eq_some_iff`).

A number has many numerals and one that is canonical: digits without a needless zero, which is how numbers
are written (`isCanonical_toDigits`).
-/

set_option autoImplicit false

namespace BytecodeSearch

namespace Numeral

/-- The digits of a number: one or more of them, whatever zeros they begin with. -/
def IsDigits (n : Nat) (ds : List Char) : Prop :=
  ds ≠ [] ∧ (∀ c ∈ ds, c.isDigit = true) ∧ Nat.ofDigitChars 10 ds 0 = n

/-- The digits of a number, with a plus sign or without. -/
def IsNumeral (n : Nat) (cs : List Char) : Prop := IsDigits n cs ∨ ∃ ds, cs = '+' :: ds ∧ IsDigits n ds

theorem value?_eq_some_iff {n : Nat} {ds : List Char} : value? ds = some n ↔ IsDigits n ds := by
  unfold value? IsDigits
  by_cases hall : ds ≠ [] ∧ ∀ c ∈ ds, c.isDigit = true
  · rw [if_pos (by simpa using hall), Option.some.injEq]
    exact ⟨fun h => ⟨hall.1, hall.2, h⟩, fun h => h.2.2⟩
  · rw [if_neg (by simpa using hall)]
    constructor
    · intro h
      cases h
    · rintro ⟨hne, hdigits, -⟩
      exact absurd ⟨hne, hdigits⟩ hall

theorem dropSign_of_isDigits {n : Nat} {ds : List Char} (h : IsDigits n ds) : dropSign ds = ds := by
  unfold dropSign
  split
  · rename_i cs
    have hsign := h.2.1 '+' List.mem_cons_self
    exact absurd hsign (by decide)
  · rfl

theorem isDigits_dropSign_iff {n : Nat} {cs : List Char} :
    IsDigits n (dropSign cs) ↔ IsNumeral n cs := by
  constructor
  · intro h
    unfold dropSign at h
    split at h
    · rename_i ds
      exact .inr ⟨ds, rfl, h⟩
    · exact .inl h
  · rintro (h | ⟨ds, rfl, h⟩)
    · rwa [dropSign_of_isDigits h]
    · exact h

/-- Exactly the numerals of numbers below the bound are read. -/
theorem read?_eq_some_iff {bound n : Nat} {cs : List Char} :
    read? bound cs = some n ↔ IsNumeral n cs ∧ n < bound := by
  rw [read?, Option.filter_eq_some_iff, value?_eq_some_iff, isDigits_dropSign_iff, decide_eq_true_eq]

instance (n : Nat) (cs : List Char) : Decidable (IsNumeral n cs) :=
  decidable_of_iff (value? (dropSign cs) = some n) (value?_eq_some_iff.trans isDigits_dropSign_iff)

theorem isDigits_toDigits (n : Nat) : IsDigits n (Nat.toDigits 10 n) :=
  ⟨Nat.toDigits_ne_nil, fun _ hc => Nat.isDigit_of_mem_toDigits (by decide) (by decide) hc,
    Nat.ofDigitChars_ten_toDigits⟩

theorem isNumeral_toDigits (n : Nat) : IsNumeral n (Nat.toDigits 10 n) := .inl (isDigits_toDigits n)

/-- Different numbers have different digits. -/
theorem toDigits_injective : Function.Injective (Nat.toDigits 10) := by
  intro m n h
  have hread := congrArg (fun ds => Nat.ofDigitChars 10 ds 0) h
  simpa only [Nat.ofDigitChars_ten_toDigits] using hread

/-! ## Canonical numerals -/

/-- The digits of a number, which begin with zero only if this is all of them. -/
def IsCanonical (n : Nat) (ds : List Char) : Prop :=
  IsDigits n ds ∧ (ds.head? = some '0' → ds = ['0'])

theorem eq_zero_of_head_toDigits (n : Nat) (h : (Nat.toDigits 10 n).head? = some '0') : n = 0 := by
  induction n using Nat.strong_induction_on with
  | h n ih =>
      by_cases hsmall : n < 10
      · have hdigits : ∀ m < 10, [Nat.digitChar m].head? = some '0' → m = 0 := by decide
        rw [Nat.toDigits_of_lt_base hsmall] at h
        exact hdigits n hsmall h
      · -- the first digit is that of a smaller number, which is not zero
        have hle : 10 ≤ n := Nat.le_of_not_lt hsmall
        rw [Nat.toDigits_of_base_le (by decide) hle,
          List.head?_append_of_ne_nil _ Nat.toDigits_ne_nil] at h
        have hzero := ih (n / 10) (by omega) h
        omega

/-- Numbers are written by their canonical numerals. -/
theorem isCanonical_toDigits (n : Nat) : IsCanonical n (Nat.toDigits 10 n) := by
  refine ⟨isDigits_toDigits n, fun h => ?_⟩
  obtain rfl := eq_zero_of_head_toDigits n h
  rfl

end Numeral

/-! ## White space around a numeral -/

namespace Text

theorem dropWhile_isBlank_append {text : List Char} (hne : text ≠ [])
    (htext : ∀ c ∈ text, isBlank c = false) (more : List Char) :
    (text ++ more).dropWhile isBlank = text ++ more := by
  cases text with
  | nil => exact absurd rfl hne
  | cons c cs =>
      have hc : ¬ isBlank c = true := by simp [htext c List.mem_cons_self]
      rw [List.cons_append, List.dropWhile_cons_of_neg hc]

/-- White space at either end is dropped, up to a text without white space. -/
theorem trim_append {front text back : List Char} (hfront : ∀ c ∈ front, isBlank c = true)
    (hback : ∀ c ∈ back, isBlank c = true) (hne : text ≠ []) (htext : ∀ c ∈ text, isBlank c = false) :
    trim (front ++ text ++ back) = text := by
  have hbehind : ∀ c ∈ back.reverse, isBlank c = true :=
    fun c hc => hback c (List.mem_reverse.mp hc)
  have hreverse : text.reverse.dropWhile isBlank = text.reverse := by
    have hnil : text.reverse ≠ [] := fun h => hne (List.reverse_eq_nil_iff.mp h)
    have hdrop := dropWhile_isBlank_append hnil (fun c hc => htext c (List.mem_reverse.mp hc)) []
    rwa [List.append_nil] at hdrop
  rw [trim, List.append_assoc, List.dropWhile_append_of_pos hfront, dropWhile_isBlank_append hne htext,
    List.reverse_append, List.dropWhile_append_of_pos hbehind, hreverse, List.reverse_reverse]

/-- What is dropped is white space. -/
theorem exists_append_trim (cs : List Char) : ∃ front back, cs = front ++ trim cs ++ back ∧
    (∀ c ∈ front, isBlank c = true) ∧ ∀ c ∈ back, isBlank c = true := by
  refine ⟨cs.takeWhile isBlank, (cs.dropWhile isBlank).rtakeWhile isBlank, ?_,
    fun c hc => List.mem_takeWhile_imp hc, fun c hc => List.mem_rtakeWhile_imp hc⟩
  show cs = cs.takeWhile isBlank ++ (cs.dropWhile isBlank).rdropWhile isBlank ++ _
  rw [List.append_assoc, List.rdropWhile_append_rtakeWhile, List.takeWhile_append_dropWhile]

theorem isBlank_of_isDigit {c : Char} (h : c.isDigit = true) : isBlank c = false := by
  simp only [Char.isDigit, Bool.and_eq_true, decide_eq_true_eq] at h
  have hcode : 48 ≤ c.toNat ∧ c.toNat ≤ 57 := h
  simp only [isBlank, Bool.or_eq_false_iff, Bool.and_eq_false_iff, beq_eq_false_iff_ne,
    decide_eq_false_iff_not]
  omega

end Text

namespace Numeral

/-- A numeral with white space before it and behind it, or none. -/
def IsPadded (n : Nat) (cs : List Char) : Prop :=
  ∃ front digits back, cs = front ++ digits ++ back ∧ (∀ c ∈ front, Text.isBlank c = true) ∧
    (∀ c ∈ back, Text.isBlank c = true) ∧ IsNumeral n digits

theorem IsDigits.isBlank_eq_false {n : Nat} {ds : List Char} (h : IsDigits n ds) :
    ∀ c ∈ ds, Text.isBlank c = false :=
  fun c hc => Text.isBlank_of_isDigit (h.2.1 c hc)

theorem IsNumeral.isBlank_eq_false {n : Nat} {cs : List Char} (h : IsNumeral n cs) :
    ∀ c ∈ cs, Text.isBlank c = false := by
  rcases h with h | ⟨ds, rfl, h⟩
  · exact h.isBlank_eq_false
  · exact List.forall_mem_cons.mpr ⟨by decide, h.isBlank_eq_false⟩

theorem IsNumeral.ne_nil {n : Nat} {cs : List Char} (h : IsNumeral n cs) : cs ≠ [] := by
  rcases h with h | ⟨ds, rfl, -⟩
  · exact h.1
  · exact List.cons_ne_nil _ _

theorem isNumeral_trim_iff {n : Nat} {cs : List Char} : IsNumeral n (Text.trim cs) ↔ IsPadded n cs := by
  constructor
  · intro h
    obtain ⟨front, back, hcs, hfront, hback⟩ := Text.exists_append_trim cs
    exact ⟨front, Text.trim cs, back, hcs, hfront, hback, h⟩
  · rintro ⟨front, digits, back, rfl, hfront, hback, h⟩
    rwa [Text.trim_append hfront hback h.ne_nil h.isBlank_eq_false]

/-- Of trimmed texts, exactly the numerals of numbers below the bound are read, with any white space around
them. -/
theorem read?_trim_eq_some_iff {bound n : Nat} {cs : List Char} :
    read? bound (Text.trim cs) = some n ↔ IsPadded n cs ∧ n < bound := by
  rw [read?_eq_some_iff, isNumeral_trim_iff]

instance (n : Nat) (cs : List Char) : Decidable (IsPadded n cs) :=
  decidable_of_iff (IsNumeral n (Text.trim cs)) isNumeral_trim_iff

end Numeral

end BytecodeSearch
