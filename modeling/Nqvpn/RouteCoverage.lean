import Nqvpn.OwnershipAgreement
import Nqvpn.RoutePolicyScope

/-!
# Routes cover the table

The host sends into the tunnel what the wanted routes contain; the table inside picks the peer.
-/

namespace Nqvpn

open LpmTable PeerTable List Routes

theorem IpNet.containsAddr_mono {m n : IpNet} {ip : IpAddr} (hm : m.containsNet n)
    (hn : n.containsAddr ip) : m.containsAddr ip := by
  cases m <;> cases n <;> cases ip <;>
    simp only [containsNet, containsAddr, Bool.and_eq_true, decide_eq_true_eq, beq_iff_eq,
      Bool.false_eq_true] at hm hn ⊢
  all_goals rw [hm.2, ← mask_mask_of_le _ hm.1, hn, mask_mask_of_le _ hm.1]

variable {t : PeerTable} {view : Snapshot} {ip : IpAddr} {peer : NodeId} {mine : List IpNet}
  {policy : Option RoutePolicy}

theorem wanted_covers {id : NodeId} {m : PeerInfo} {p : IpNet} (hm : m ∈ view.members)
    (hid : m.nodeId ≠ id) (hp : p ∈ memberPrefixes m) (hpermitted : permitted policy p)
    (hip : p.containsAddr ip) : (∃ w ∈ wanted view id mine policy, w.containsAddr ip) ∨
      ∃ n ∈ mine, 0 < n.prefixLen ∧ n.containsAddr ip := by
  -- The prefix itself is offered, or a reserved one that contains it.
  obtain ⟨w, hw, hwip⟩ : ∃ w ∈ wanted view id [] policy, w.containsAddr ip := by
    by_cases hcover :
        ∃ r ∈ (view.reservedPrefixes.map IpNet.trunc).filter (permitted policy), r.containsNet p
    · obtain ⟨r, hr, hrp⟩ := hcover
      exact ⟨r, mem_wanted.mpr ⟨.inl hr, by simp⟩, IpNet.containsAddr_mono hrp hip⟩
    · simp only [not_exists, not_and, Bool.not_eq_true] at hcover
      exact ⟨p, mem_wanted.mpr ⟨.inr ⟨⟨m, hm, hid, hp, hpermitted⟩, hcover⟩, by simp⟩, hip⟩
  by_cases hmine : ∃ n ∈ mine, 0 < n.prefixLen ∧ n.containsNet w
  · obtain ⟨n, hn, hlen, hnw⟩ := hmine
    exact .inr ⟨n, hn, hlen, IpNet.containsAddr_mono hnw hwip⟩
  · simp only [not_exists, not_and, Bool.not_eq_true] at hmine
    exact .inl ⟨w, mem_wanted.mpr ⟨(mem_wanted.mp hw).1, hmine⟩, hwip⟩

theorem kept_of_ownerOf (hview : view.Tidy) (h : (t.replaceAll view.members).ownerOf ip = some peer) :
    ∃ m ∈ view.members, ∃ p, (p, peer) ∈ t.kept m ∧ p.containsAddr ip := by
  rw [ownerOf, lookup_eq_map, Option.map_eq_some_iff] at h
  obtain ⟨⟨n, id⟩, hlongest, rfl⟩ := h
  have hentry := LongestMatch.isLongest_of_longest hlongest
  rw [(t.replaceAll_filled hview.ids hview.trunc).1] at hentry
  obtain ⟨net, hmem, rfl⟩ := exists_of_mem_fill hentry.mem
  obtain ⟨m, hm, hkept⟩ := mem_flatMap.mp hmem
  exact ⟨m, hm, net, hkept, by simpa using hentry.covers⟩

/-- What a table built from the view gives to a peer is routed into the tunnel, under the table's own
policy or none, whatever reserved prefixes stand for the members'; only our own space is not. -/
theorem routes_cover_table (hview : view.Tidy) (hpolicy : policy = none ∨ policy = some t.policy)
    (h : (t.replaceAll view.members).ownerOf ip = some peer) :
    (∃ w ∈ wanted view t.myNodeId mine policy, w.containsAddr ip) ∨
      ∃ n ∈ mine, 0 < n.prefixLen ∧ n.containsAddr ip := by
  obtain ⟨m, hm, p, hkept, hip⟩ := kept_of_ownerOf hview h
  obtain ⟨hid, hp, hmarker, hpermits, -⟩ := mem_kept.mp hkept
  have hpermitted : permitted policy p := by
    rcases hpolicy with rfl | rfl
    · rfl
    · exact hpermits
  apply wanted_covers hm hid _ hpermitted hip
  exact mem_map.mpr ⟨p, mem_filter.mpr ⟨hp, by simp [hmarker]⟩, hview.trunc m hm p hp hmarker⟩

/-- An address behind the gateway, for the laptop. -/
theorem routes_cover_table_lan :
    ∃ w ∈ wanted OwnershipExample.view 2 [] none, w.containsAddr (.v4 0xc0a80107#32) := by
  have h : ((new 2).replaceAll OwnershipExample.view.members).ownerOf (.v4 0xc0a80107#32) = some 1 := by
    decide +kernel
  exact (routes_cover_table OwnershipExample.tidy (.inl rfl) h).resolve_right (by simp)

end Nqvpn
