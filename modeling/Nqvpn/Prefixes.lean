import Nqvpn.ConfigValidation

/-!
# Prefixes as sets of addresses

A prefix stands for the addresses that agree with it in the bits it fixes. Two prefixes overlap when
they share an address, and the addresses from the first to the last of a prefix are all inside.
-/

namespace Nqvpn

namespace IpNet

section Mask

variable {w : Nat} (a : BitVec w)

theorem mask_mask_of_le {len len' : Nat} (h : len ≤ len') :
    mask (mask a len') len = mask a len := by
  ext i hi
  simp only [mask, BitVec.getElem_shiftLeft, BitVec.getElem_ushiftRight]
  by_cases hlow : i < w - len
  · simp [hlow]
  · have hsum : w - len + (i - (w - len)) = i := by omega
    have hfixed : ¬ i < w - len' := by omega
    have hsum' : w - len' + (i - (w - len')) = i := by omega
    simp [hlow, hsum, hfixed, hsum', hi]

variable (len : Nat)

theorem mask_mask : mask (mask a len) len = mask a len :=
  mask_mask_of_le a le_rfl

theorem mask_shift : mask a len >>> (w - len) = a >>> (w - len) := by
  refine BitVec.eq_of_getLsbD_eq fun i _ => ?_
  simp only [mask, BitVec.getLsbD_ushiftRight, BitVec.getLsbD_shiftLeft]
  by_cases hi : w - len + i < w
  · simp [hi]
  · simp [hi, BitVec.getLsbD_of_ge a _ (Nat.not_lt.mp hi)]

theorem last_shift : last a len >>> (w - len) = a >>> (w - len) := by
  refine BitVec.eq_of_getLsbD_eq fun i _ => ?_
  simp only [last, mask, BitVec.getLsbD_ushiftRight, BitVec.getLsbD_or, BitVec.getLsbD_not,
    BitVec.getLsbD_shiftLeft, BitVec.getLsbD_allOnes]
  by_cases hi : w - len + i < w
  · simp [hi]
  · simp [hi, BitVec.getLsbD_of_ge a _ (Nat.not_lt.mp hi)]

theorem mask_le_last : (mask a len).toNat ≤ (last a len).toNat := by
  unfold last
  exact Nat.left_le_or

theorem mask_eq_of_range {a x : BitVec w} {len : Nat} (hfirst : (mask a len).toNat ≤ x.toNat)
    (hlast : x.toNat ≤ (last a len).toNat) : mask a len = mask x len := by
  have hshift : a >>> (w - len) = x >>> (w - len) := by
    have hlow := congrArg BitVec.toNat (mask_shift a len)
    have hhigh := congrArg BitVec.toNat (last_shift a len)
    simp only [BitVec.toNat_ushiftRight, Nat.shiftRight_eq_div_pow] at hlow hhigh
    refine BitVec.eq_of_toNat_eq ?_
    simp only [BitVec.toNat_ushiftRight, Nat.shiftRight_eq_div_pow]
    refine le_antisymm ?_ ?_
    · rw [← hlow]
      exact Nat.div_le_div_right hfirst
    · rw [← hhigh]
      exact Nat.div_le_div_right hlast
  unfold mask
  rw [hshift]

theorem mask_le : (mask a len).toNat ≤ a.toNat := by
  have hbits : mask a len ||| a = a := by
    ext i hi
    simp only [mask, BitVec.getElem_or, BitVec.getElem_shiftLeft, BitVec.getElem_ushiftRight]
    by_cases hlow : i < w - len
    · simp [hlow]
    · have hsum : w - len + (i - (w - len)) = i := by omega
      simp [hlow, hsum, hi]
  calc (mask a len).toNat ≤ (mask a len).toNat ||| a.toNat := Nat.left_le_or
    _ = a.toNat := by rw [← BitVec.toNat_or, hbits]

theorem le_last : a.toNat ≤ (last a len).toNat := by
  have hbits : a ||| last a len = last a len := by
    ext i hi
    simp only [last, mask, BitVec.getElem_or, BitVec.getElem_not, BitVec.getElem_shiftLeft,
      BitVec.getElem_ushiftRight]
    by_cases hlow : i < w - len
    · simp [hlow]
    · have hsum : w - len + (i - (w - len)) = i := by omega
      simp [hlow, hsum, hi]
  calc a.toNat ≤ a.toNat ||| (last a len).toNat := Nat.left_le_or
    _ = (last a len).toNat := by rw [← BitVec.toNat_or, hbits]

theorem range_of_mask_eq {a x : BitVec w} {len : Nat} (h : mask a len = mask x len) :
    (mask a len).toNat ≤ x.toNat ∧ x.toNat ≤ (last a len).toNat := by
  have hlast : last a len = last x len := by
    unfold last
    rw [h]
  rw [hlast, h]
  exact ⟨mask_le x len, le_last x len⟩

end Mask

variable (n : IpNet)

@[simp] theorem trunc_trunc : n.trunc.trunc = n.trunc := by
  cases n <;> simp [trunc, mask_mask]

@[simp] theorem prefixLen_trunc : n.trunc.prefixLen = n.prefixLen := by
  cases n <;> rfl

@[simp] theorem containsAddr_trunc (ip : IpAddr) :
    n.trunc.containsAddr ip = n.containsAddr ip := by
  cases n <;> cases ip <;> simp [trunc, containsAddr, mask_mask]

theorem containsAddr_trunc_addr : n.containsAddr n.trunc.addr := by
  cases n <;> simp [trunc, addr, containsAddr, mask_mask]

@[simp] theorem containsAddr_host {ip ip' : IpAddr} : (host ip).containsAddr ip' ↔ ip = ip' := by
  cases ip <;> cases ip' <;> simp [host, containsAddr, mask]

theorem eq_of_containsAddr {m n : IpNet} {ip : IpAddr} (hm : m.trunc = m) (hn : n.trunc = n)
    (hlen : m.prefixLen = n.prefixLen) (hcm : m.containsAddr ip)
    (hcn : n.containsAddr ip) : m = n := by
  cases m with
  | v4 a len =>
    cases n with
    | v4 b len' =>
      cases ip with
      | v4 c =>
        obtain rfl : len = len' := Fin.ext hlen
        simp only [trunc, v4.injEq, and_true] at hm hn
        simp only [containsAddr, beq_iff_eq] at hcm hcn
        rw [← hm, ← hn, hcm, hcn]
      | v6 c => cases hcm
    | v6 b len' => cases ip <;> first | cases hcm | cases hcn
  | v6 a len =>
    cases n with
    | v4 b len' => cases ip <;> first | cases hcm | cases hcn
    | v6 b len' =>
      cases ip with
      | v4 c => cases hcm
      | v6 c =>
        obtain rfl : len = len' := Fin.ext hlen
        simp only [trunc, v6.injEq, and_true] at hm hn
        simp only [containsAddr, beq_iff_eq] at hcm hcn
        rw [← hm, ← hn, hcm, hcn]

theorem containsAddr_first {m n : IpNet} {ip : IpAddr} (hlen : m.prefixLen ≤ n.prefixLen)
    (hm : m.containsAddr ip) (hn : n.containsAddr ip) :
    m.containsAddr n.trunc.addr := by
  have hbits {w len len' : Nat} {a b c : BitVec w} (hle : len ≤ len') (ha : mask a len = mask c len)
      (hb : mask b len' = mask c len') : mask a len = mask (mask b len') len := by
    rw [ha, hb, mask_mask_of_le c hle]
  cases m with
  | v4 a len =>
    cases n with
    | v4 b len' =>
      cases ip with
      | v4 c =>
        simp only [containsAddr, beq_iff_eq] at hm hn
        simp only [prefixLen] at hlen
        simpa [trunc, addr, containsAddr] using hbits hlen hm hn
      | v6 c => cases hm
    | v6 b len' => cases ip <;> first | cases hm | cases hn
  | v6 a len =>
    cases n with
    | v4 b len' => cases ip <;> first | cases hm | cases hn
    | v6 b len' =>
      cases ip with
      | v4 c => cases hm
      | v6 c =>
        simp only [containsAddr, beq_iff_eq] at hm hn
        simp only [prefixLen] at hlen
        simpa [trunc, addr, containsAddr] using hbits hlen hm hn

theorem overlaps_eq_true_iff {m n : IpNet} :
    m.overlaps n ↔ ∃ ip, m.containsAddr ip ∧ n.containsAddr ip := by
  simp only [overlaps, Bool.or_eq_true]
  constructor
  · rintro (h | h)
    · exact ⟨_, h, containsAddr_trunc_addr n⟩
    · exact ⟨_, containsAddr_trunc_addr m, h⟩
  · rintro ⟨ip, hm, hn⟩
    rcases le_total m.prefixLen n.prefixLen with hlen | hlen
    · exact .inl (containsAddr_first hlen hm hn)
    · exact .inr (containsAddr_first hlen hn hm)

def Disjoint (m n : IpNet) : Prop := ∀ ip, ¬ (m.containsAddr ip = true ∧ n.containsAddr ip = true)

theorem disjoint_iff_overlaps {m n : IpNet} : m.Disjoint n ↔ m.overlaps n = false := by
  rw [← Bool.not_eq_true, overlaps_eq_true_iff, not_exists]
  rfl

end IpNet

end Nqvpn
