import Nqvpn.FailedJoin

/-!
# The allocator finds what is free

The scan visits every host of the range, wherever its cursor stands, so a range is given up only when
each of its hosts is somebody else's and nothing of it can be taken back. Giving up comes before the
first change, so the registry stays as it was.
-/

namespace Nqvpn

open InPlace

namespace Ipam

variable {cfg : NetworkConfig}

theorem usableV4_iff_host {ip : BitVec 32} :
    cfg.UsableV4 ip ↔ ∃ i < (v4Pool cfg).size, (v4Pool cfg).host i = ip := by
  constructor
  · rintro ⟨⟨net, len, hcidr, hcontains⟩, hinner⟩
    simp only [IpNet.containsAddr, beq_iff_eq] at hcontains
    obtain ⟨hfirst, hlast⟩ := IpNet.range_of_mask_eq hcontains
    simp only [v4Pool, hcidr, v4Hosts]
    split_ifs with hlen
    · refine ⟨ip.toNat - (IpNet.mask net len).toNat, by omega, ?_⟩
      rw [Nat.add_sub_cancel' hfirst, BitVec.ofNat_toNat, BitVec.setWidth_eq]
    · -- Neither end of the range is a host.
      have hne : ip ≠ IpNet.mask net len ∧ ip ≠ IpNet.last net len := by
        refine ⟨fun h => hinner ?_, fun h => hinner ?_⟩
        · exact ⟨net, len, hcidr, Nat.not_le.mp hlen, .inl h⟩
        · exact ⟨net, len, hcidr, Nat.not_le.mp hlen, .inr h⟩
      have hlow : ip.toNat ≠ (IpNet.mask net len).toNat := mt BitVec.eq_of_toNat_eq hne.1
      have hhigh : ip.toNat ≠ (IpNet.last net len).toNat := mt BitVec.eq_of_toNat_eq hne.2
      refine ⟨ip.toNat - ((IpNet.mask net len).toNat + 1), by omega, ?_⟩
      rw [Nat.add_sub_cancel' (by omega), BitVec.ofNat_toNat, BitVec.setWidth_eq]
  · rintro ⟨i, hi, rfl⟩
    exact usableV4_host hi

theorem size_v4Pool_le (cfg : NetworkConfig) : (v4Pool cfg).size ≤ 2 ^ 32 := by
  unfold v4Pool
  split
  · exact Nat.zero_le _
  · rename_i net len _
    have hlast := (IpNet.last net len).isLt
    simp only [v4Hosts]
    split_ifs <;> simp only <;> omega

theorem size_v6Pool_le (cfg : NetworkConfig) : (v6Pool cfg).size ≤ v6ScanCap := by
  unfold v6Pool
  split
  · exact Nat.zero_le _
  · exact min_le_right _ _

theorem scanFromCursor_isSome {α : Type} {n : Nat} {at_ : Nat → α} {taken : α → Bool} {cursor : Nat} :
    (scanFromCursor n at_ taken cursor).isSome ↔ ∃ i < n, taken (at_ i) = false := by
  rw [← not_iff_not, Option.not_isSome_iff_eq_none, scanFromCursor_eq_none]
  simp

variable {reg reg' : Registry} {reclaim : Option Leases} {now : Nat} {member : String}

def NothingToReclaim (cfg : NetworkConfig) (reg : Registry) (reclaim : Option Leases) (now : Nat)
    (member : String) : Prop :=
  ∀ leases, reclaim = some leases → ∀ id since ip,
    ¬ CanLose v4 cfg reg leases now member
      (fun ip => !isHard cfg v4.configured ip && (v4Pool cfg).contains ip) id since ip

theorem reclaim_eq_none_iff :
    (reclaim.bind fun leases => reclaimable cfg reg leases now member v4.assigned
        (fun ip => !isHard cfg v4.configured ip && (v4Pool cfg).contains ip)) = none ↔
      NothingToReclaim cfg reg reclaim now member := by
  rw [Option.bind_eq_none_iff]
  refine forall₂_congr fun leases _ => ?_
  rw [reclaimable_eq_argmin, Option.map_eq_none_iff, List.argmin_eq_none, List.eq_nil_iff_forall_not_mem]
  constructor
  · intro h id since ip hlose
    exact h (since, id, ip) (mem_candidates.mpr hlose)
  · intro h c hc
    exact h c.2.1 c.1 c.2.2 (mem_candidates.mp hc)

theorem allocV4_fails_iff :
    (∃ e, allocV4 cfg reg reclaim now member = .error e) ↔
      (∀ ip, cfg.UsableV4 ip → ¬ Free v4 cfg reg member ip) ∧ NothingToReclaim cfg reg reclaim now member := by
  have hhosts : (∀ ip, cfg.UsableV4 ip → ¬ Free v4 cfg reg member ip) ↔
      ∀ i < (v4Pool cfg).size, ¬ Free v4 cfg reg member ((v4Pool cfg).host i) := by
    constructor
    · exact fun h i hi => h _ (usableV4_host hi)
    · intro h ip hip
      obtain ⟨i, hi, rfl⟩ := usableV4_iff_host.mp hip
      exact h i hi
  have hsearch : search v4 (v4Pool cfg) cfg reg reclaim now member "ipv4" = none ↔
      (∀ i < (v4Pool cfg).size, ¬ Free v4 cfg reg member ((v4Pool cfg).host i)) ∧
        NothingToReclaim cfg reg reclaim now member := by
    rw [search, Option.or_eq_none_iff, Option.map_eq_none_iff, Option.map_eq_none_iff, scan_eq_none_iff,
      reclaim_eq_none_iff]
  obtain ⟨e, halloc⟩ := allocV4_eq cfg reg reclaim now member
  rw [hhosts, ← hsearch, halloc]
  cases search v4 (v4Pool cfg) cfg reg reclaim now member "ipv4" <;> simp

variable (env : CoordText) (cfg reclaim now member) in
/-- Wherever the cursor stands, a scan finds a free address of its range if there is one, and only
such a one (the ranges are so small that its index never wraps in 64 bits); `alloc_v4` fails exactly
when every usable host of the range is another's, by assignment or by configuration, and nothing can
be taken back; and an allocation that fails leaves the registry as it was. -/
theorem allocation_complete :
    (∀ {α : Type} (n : Nat) (at_ : Nat → α) (taken : α → Bool) (cursor : Nat),
      ((scanFromCursor n at_ taken cursor).isSome = true ↔ ∃ i < n, taken (at_ i) = false) ∧
        ∀ ip next, scanFromCursor n at_ taken cursor = some (ip, next) →
          (∃ i < n, at_ i = ip) ∧ taken ip = false) ∧
      ((v4Pool cfg).size ≤ 2 ^ 32 ∧ (v6Pool cfg).size ≤ v6ScanCap) ∧
      (∀ reg, (∃ e reg', allocV4InPlace cfg reclaim now member (takenBy cfg reg member (·.ip4) (·.preferredIp4))
            reg = .error e reg') ↔
          (∀ ip, cfg.UsableV4 ip → ¬ Free v4 cfg reg member ip) ∧
            NothingToReclaim cfg reg reclaim now member) ∧
      (∀ reg e reg', allocV4InPlace cfg reclaim now member (takenBy cfg reg member (·.ip4) (·.preferredIp4))
          reg = .error e reg' → reg' = reg) ∧
      ∀ preferred4 preferred6 reg e reg',
        allocateInnerInPlace env cfg reclaim now member preferred4 preferred6 reg = .error e reg' → reg' = reg := by
  refine ⟨fun n at_ taken cursor => ⟨scanFromCursor_isSome, fun ip next hscan => ?_⟩,
    ⟨size_v4Pool_le cfg, size_v6Pool_le cfg⟩, fun reg => ?_, fun reg e reg' h => ?_,
    fun preferred4 preferred6 reg e reg' h => ?_⟩
  · exact exists_of_scanFromCursor hscan
  · rw [← allocV4_fails_iff]
    constructor
    · rintro ⟨e, reg', h⟩
      exact ⟨e, ((allocV4InPlace_settles reg).error_iff.mp h).1⟩
    · rintro ⟨e, h⟩
      exact ⟨e, reg, (allocV4InPlace_settles reg).error_iff.mpr ⟨h, rfl⟩⟩
  · exact ((allocV4InPlace_settles reg).error_iff.mp h).2
  · exact ((allocateInnerInPlace_settles reg preferred4 preferred6).error_iff.mp h).2

end Ipam

end Nqvpn
