import Mathlib.Tactic.Ring

/-!
# Big-endian bytes

Unsigned integers of a fixed number of bytes, most significant byte first.
-/

namespace BigEndian

def ofBytes (bs : List UInt8) : Nat := bs.foldl (fun acc b => 256 * acc + b.toNat) 0

/-- The lowest `w` bytes of `n`. -/
def toBytes : Nat → Nat → List UInt8
  | 0, _ => []
  | w + 1, n => toBytes w (n / 256) ++ [UInt8.ofNat n]

@[simp] theorem length_toBytes (w n : Nat) : (toBytes w n).length = w := by
  induction w generalizing n with
  | zero => rfl
  | succ w ih => simp [toBytes, ih]

theorem ofBytes_concat (bs : List UInt8) (b : UInt8) :
    ofBytes (bs ++ [b]) = 256 * ofBytes bs + b.toNat := by
  simp [ofBytes, List.foldl_append]

theorem ofBytes_toBytes {w n : Nat} (h : n < 256 ^ w) : ofBytes (toBytes w n) = n := by
  induction w generalizing n with
  | zero =>
    have hn : n = 0 := by simpa using h
    subst hn
    rfl
  | succ w ih =>
    have hdiv : n / 256 < 256 ^ w := by
      rw [Nat.div_lt_iff_lt_mul (by decide)]
      simpa [pow_succ] using h
    have hlow : (UInt8.ofNat n).toNat = n % 256 := UInt8.toNat_ofNat'
    rw [toBytes, ofBytes_concat, ih hdiv, hlow]
    omega

theorem append_lt_append_iff {bs bs' rest rest' : List UInt8} (hlen : bs.length = bs'.length) :
    bs ++ rest < bs' ++ rest' ↔ bs < bs' ∨ bs = bs' ∧ rest < rest' := by
  induction bs generalizing bs' with
  | nil =>
    obtain rfl := List.length_eq_zero_iff.mp hlen.symm
    simp
  | cons b bs ih =>
    cases bs' with
    | nil => cases hlen
    | cons b' bs' =>
      have hrest := ih (Nat.succ.inj hlen)
      rw [List.cons_append, List.cons_append, List.cons_lt_cons_iff, List.cons_lt_cons_iff, hrest,
        List.cons.injEq]
      tauto

theorem toBytes_lt_iff {w n m : Nat} (hn : n < 256 ^ w) (hm : m < 256 ^ w) :
    toBytes w n < toBytes w m ↔ n < m := by
  induction w generalizing n m with
  | zero =>
    have hzero : ¬ n < m := by
      omega
    simp [toBytes, hzero]
  | succ w ih =>
    have hdiv {k : Nat} (hk : k < 256 ^ (w + 1)) : k / 256 < 256 ^ w := by
      rw [Nat.div_lt_iff_lt_mul (by decide)]
      simpa [pow_succ] using hk
    have hlow (k : Nat) : (UInt8.ofNat k).toNat = k % 256 := UInt8.toNat_ofNat'
    have heq : toBytes w (n / 256) = toBytes w (m / 256) ↔ n / 256 = m / 256 := by
      refine ⟨fun h => ?_, fun h => by rw [h]⟩
      rw [← ofBytes_toBytes (hdiv hn), h, ofBytes_toBytes (hdiv hm)]
    rw [toBytes, toBytes, append_lt_append_iff (by rw [length_toBytes, length_toBytes]),
      ih (hdiv hn) (hdiv hm), heq, List.cons_lt_cons_iff, UInt8.lt_iff_toNat_lt, hlow, hlow]
    simp only [List.lt_irrefl, and_false, or_false]
    omega

end BigEndian
