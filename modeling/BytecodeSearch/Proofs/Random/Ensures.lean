import BytecodeSearch.Random.Choice

/-!
# What every draw ensures

`Choice.Ensures P c` says that the computation `c` draws from ranges with numbers in them only, and
that its result has the property `P` whatever the numbers are. It is put together along the steps of
a computation (`Ensures.bind`), and it holds of what a generator draws (`Ensures.run`): a draw gives
a number of its range, also when it is given up.

So it holds of every result that is possible (`Ensures.possible`), and what a generator draws is one of
these (`Ensures.possible_run`).
-/

set_option autoImplicit false

namespace BytecodeSearch

/-! ## A draw stays in its range -/

namespace Range

variable {ρ : Type} [Generator ρ]

theorem scale_lt {bits n zone v k : Nat} (hn : 0 < n) (hv : v < 1 <<< bits)
    (h : scale bits n zone v = some k) : k < n := by
  simp only [scale] at h
  split at h
  · have hk : v * n / (1 <<< bits) = k := by simpa using h
    rw [← hk]
    refine Nat.div_lt_of_lt_mul ?_
    exact Nat.mul_lt_mul_of_pos_right hv hn
  · simp at h

theorem attempt_lt {r : Range} {g : ρ} {k : Nat} (hr : 0 < r.size)
    (h : (r.attempt g).1 = some k) : k < r.size := by
  cases r with
  | small n => exact scale_lt hr (Generator.next32 g).1.toNat_lt h
  | word =>
      simp only [attempt, Option.some.injEq] at h
      rw [← h]
      exact Nat.mod_lt _ (by decide)
  | large n => exact scale_lt hr (Generator.next64 g).1.toNat_lt h

theorem sample_lt {r : Range} (hr : 0 < r.size) (tries : Nat) (g : ρ) :
    (r.sample tries g).1 < r.size := by
  induction tries generalizing g with
  | zero =>
      -- a draw that is given up is zero
      exact hr
  | succ tries ih =>
      simp only [sample]
      split
      · rename_i v g' h
        exact attempt_lt (g := g) hr (by rw [h])
      · rename_i g' h
        exact ih g'

end Range

namespace Choice

variable {α β : Type} {P : α → Prop} {Q : β → Prop}

/-! ## Every result has a property -/

/-- Every result of the computation has the property `P`, and no range it draws from is empty. -/
def Ensures (P : α → Prop) : Choice α → Prop
  | done a => P a
  | draw r next => 0 < r.size ∧ ∀ v < r.size, (next v).Ensures P

theorem ensures_pure {a : α} (h : P a) : (pure a : Choice α).Ensures P := h

theorem ensures_number {r : Range} (h : 0 < r.size) : (number r).Ensures (· < r.size) :=
  ⟨h, fun _ hv => hv⟩

theorem Ensures.bind {c : Choice α} {f : α → Choice β} (hc : c.Ensures P)
    (hf : ∀ a, P a → (f a).Ensures Q) : (c >>= f).Ensures Q := by
  induction c with
  | done a => exact hf a hc
  | draw r next ih =>
      obtain ⟨hsize, hnext⟩ := hc
      exact ⟨hsize, fun v hv => ih v (hnext v hv)⟩

theorem Ensures.mono {R : α → Prop} {c : Choice α} (hc : c.Ensures P) (h : ∀ a, P a → R a) :
    c.Ensures R := by
  induction c with
  | done a => exact h a hc
  | draw r next ih =>
      obtain ⟨hsize, hnext⟩ := hc
      exact ⟨hsize, fun v hv => ih v (hnext v hv)⟩

theorem Ensures.possible {c : Choice α} (hc : c.Ensures P) {a : α} (ha : c.Possible a) : P a := by
  induction c with
  | done b =>
      obtain rfl : a = b := ha
      exact hc
  | draw r next ih =>
      obtain ⟨v, hv, hnext⟩ := ha
      exact ih v (hc.2 v hv) hnext

/-- What a computation ensures holds of the result drawn from any generator. -/
theorem Ensures.run {ρ : Type} [Generator ρ] {c : Choice α} (hc : c.Ensures P) (g : ρ) :
    P (c.run g).1 := by
  induction c generalizing g with
  | done a => exact hc
  | draw r next ih =>
      obtain ⟨hsize, hnext⟩ := hc
      exact ih _ (hnext _ (Range.sample_lt hsize patience g)) _

/-- What a generator draws is possible. -/
theorem Ensures.possible_run {ρ : Type} [Generator ρ] {c : Choice α} (hc : c.Ensures P) (g : ρ) :
    c.Possible (c.run g).1 := by
  induction c generalizing g with
  | done a => exact rfl
  | draw r next ih =>
      obtain ⟨hsize, hnext⟩ := hc
      have hv := Range.sample_lt hsize patience g
      exact ⟨_, hv, ih _ (hnext _ hv) _⟩

/-! ## What is possible -/

theorem possible_pure (a : α) : (pure a : Choice α).Possible a := rfl

theorem possible_number {r : Range} {v : Nat} (hv : v < r.size) : (number r).Possible v :=
  ⟨v, hv, rfl⟩

theorem Possible.bind {c : Choice α} {f : α → Choice β} {a : α} {b : β} (ha : c.Possible a)
    (hb : (f a).Possible b) : (c >>= f).Possible b :=
  possible_bind.mpr ⟨a, ha, hb⟩

end Choice

end BytecodeSearch
