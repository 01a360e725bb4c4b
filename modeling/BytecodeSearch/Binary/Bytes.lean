/-!
# Numbers as bytes

Fixed-width numbers are written with their low byte first. `ofBytes_toBytes` and
`toBytes_ofBytes` say that `k` bytes and the numbers below `256 ^ k` are the same thing.
-/

set_option autoImplicit false

namespace BytecodeSearch.LittleEndian

/-- The `k` low bytes of a number, lowest first. -/
def toBytes : Nat → Nat → List UInt8
  | 0, _ => []
  | k + 1, n => UInt8.ofNat n :: toBytes k (n / 256)

/-- The number whose bytes these are, lowest first. -/
def ofBytes : List UInt8 → Nat
  | [] => 0
  | b :: bs => b.toNat + 256 * ofBytes bs

@[simp] theorem length_toBytes (k n : Nat) : (toBytes k n).length = k := by
  induction k generalizing n with
  | zero => rfl
  | succ k ih => simp [toBytes, ih]

theorem ofBytes_lt (bs : List UInt8) : ofBytes bs < Nat.pow 256 bs.length := by
  induction bs with
  | nil => simp [ofBytes]
  | cons b bs ih =>
      have hb := b.toNat_lt
      simp only [ofBytes, List.length_cons, Nat.pow_eq, Nat.pow_succ] at *
      omega

/-- Reading back what was written gives the number, if `k` bytes hold it. -/
theorem ofBytes_toBytes {k n : Nat} (h : n < Nat.pow 256 k) : ofBytes (toBytes k n) = n := by
  induction k generalizing n with
  | zero => simp [toBytes, ofBytes]; simp at h; exact h.symm
  | succ k ih =>
      have hdiv : n / 256 < Nat.pow 256 k := by
        simp only [Nat.pow_eq, Nat.pow_succ] at *
        omega
      simp only [toBytes, ofBytes, ih hdiv, UInt8.toNat_ofNat']
      omega

/-- Bytes are written back as they were read. -/
theorem toBytes_ofBytes (bs : List UInt8) : toBytes bs.length (ofBytes bs) = bs := by
  induction bs with
  | nil => rfl
  | cons b bs ih =>
      have hb := b.toNat_lt
      have hdiv : (b.toNat + 256 * ofBytes bs) / 256 = ofBytes bs := by omega
      have hlow : UInt8.ofNat (b.toNat + 256 * ofBytes bs) = b := by
        apply UInt8.toNat_inj.mp
        simp only [UInt8.toNat_ofNat']
        omega
      simp only [List.length_cons, toBytes, ofBytes, hdiv, hlow, ih]

end BytecodeSearch.LittleEndian
