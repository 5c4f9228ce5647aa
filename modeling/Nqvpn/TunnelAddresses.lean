import Nqvpn.AddressBook
import Nqvpn.Prefixes

/-!
# Addresses stay in the tunnel space

Whatever the allocator grants lies in the address space of the network: a wanted address is checked,
a current one is kept only if it does, and a fresh or reclaimed one comes from the range itself. A
configuration with another address space is checked against the addresses on record.
-/

namespace Nqvpn

open Fallible DurableRows NetworkConfig

namespace NetworkConfig

variable {cfg : NetworkConfig}

theorem mem_cidrs_of_ipv4Cidr {net : BitVec 32} {len : Fin 33} (h : cfg.ipv4Cidr = some (net, len)) :
    .v4 net len ∈ cfg.cidrs := by
  obtain ⟨c, hc, heq⟩ := List.exists_of_findSome?_eq_some h
  cases c with
  | v4 a len' =>
    cases heq
    exact hc
  | v6 a len' => cases heq

theorem mem_cidrs_of_ipv6Cidr {net : BitVec 128} {len : Fin 129} (h : cfg.ipv6Cidr = some (net, len)) :
    .v6 net len ∈ cfg.cidrs := by
  obtain ⟨c, hc, heq⟩ := List.exists_of_findSome?_eq_some h
  cases c with
  | v4 a len' => cases heq
  | v6 a len' =>
    cases heq
    exact hc

theorem inTunnel_of_mem {c : IpNet} {ip : IpAddr} (hc : c ∈ cfg.cidrs) (hip : c.containsAddr ip) :
    cfg.inTunnel ip :=
  List.any_eq_true.mpr ⟨c, hc, hip⟩

end NetworkConfig

namespace Ipam

theorem mask_eq_of_offset {w : Nat} {net : BitVec w} {len x : Nat}
    (hfirst : (IpNet.mask net len).toNat ≤ x) (hlast : x ≤ (IpNet.last net len).toNat) :
    IpNet.mask net len = IpNet.mask (BitVec.ofNat w x) len := by
  have hx : (BitVec.ofNat w x).toNat = x := by
    exact Nat.mod_eq_of_lt (lt_of_le_of_lt hlast (IpNet.last net len).isLt)
  exact IpNet.mask_eq_of_range (hx.symm ▸ hfirst) (hx.symm ▸ hlast)

variable {cfg : NetworkConfig} {reg reg' : Registry} {reclaim : Option Leases} {now i : Nat}
  {member family : String}

theorem v4Pool_contains_host (hi : i < (v4Pool cfg).size) :
    (v4Pool cfg).contains ((v4Pool cfg).host i) := by
  cases hcidr : cfg.ipv4Cidr with
  | none => simp [v4Pool, hcidr] at hi
  | some range =>
    obtain ⟨net, len⟩ := range
    have hle := IpNet.mask_le_last net len.val
    simp only [v4Pool, hcidr, v4Hosts, IpNet.containsAddr, beq_iff_eq] at hi ⊢
    split_ifs at hi ⊢ <;> exact mask_eq_of_offset (by omega) (by omega)

theorem v6Pool_contains_host (hi : i < (v6Pool cfg).size) :
    (v6Pool cfg).contains ((v6Pool cfg).host i) := by
  cases hcidr : cfg.ipv6Cidr with
  | none => simp [v6Pool, hcidr] at hi
  | some range =>
    obtain ⟨net, len⟩ := range
    simp only [v6Pool, hcidr, IpNet.containsAddr, beq_iff_eq] at hi ⊢
    have hbound := lt_of_lt_of_le hi (min_le_left _ _)
    exact mask_eq_of_offset (by omega) (by omega)

theorem v4Pool_contains_iff {ip : BitVec 32} : (v4Pool cfg).contains ip ↔
    ∃ net len, cfg.ipv4Cidr = some (net, len) ∧ (IpNet.v4 net len).containsAddr (.v4 ip) := by
  rcases hcidr : cfg.ipv4Cidr with _ | ⟨net, len⟩ <;> simp [v4Pool, hcidr]

theorem v6Pool_contains_iff {ip : BitVec 128} : (v6Pool cfg).contains ip ↔
    ∃ net len, cfg.ipv6Cidr = some (net, len) ∧ (IpNet.v6 net len).containsAddr (.v6 ip) := by
  rcases hcidr : cfg.ipv6Cidr with _ | ⟨net, len⟩ <;> simp [v6Pool, hcidr]

theorem Picks.inTunnel {α : Type} [DecidableEq α] {f : Family α} {pool : Pool α} {static : Option α}
    {inTunnel : α → Bool} {reg₀ : Registry} {ip : α}
    (h : Picks f pool cfg reg reclaim now member family
      (static.or (((reg₀.byName member).bind f.assigned).filter inTunnel)) (some ip) reg')
    (hstatic : static = some ip → inTunnel ip)
    (hhost : ∀ i < pool.size, pool.contains (pool.host i))
    (hpool : pool.contains ip → inTunnel ip) : inTunnel ip := by
  cases h with
  | past hip =>
    rcases past_cases hip with hip | ⟨_, _, -, -, -, hinside⟩
    · exact hstatic hip
    · exact hinside
  | found _ hsearch =>
    rcases search_cases hsearch with ⟨⟨i, hi, rfl⟩, -⟩ | ⟨_, _, _, -, -, hr⟩
    · exact hpool (hhost i hi)
    · exact hpool (Bool.and_eq_true_iff.mp hr.eligible).2

theorem Allocated.inTunnel {preferred4 : Option (BitVec 32)} {preferred6 : Option (BitVec 128)}
    {granted : Granted} {m : MemberCfg} {reg₁ : Registry}
    (h : Allocated cfg reg reclaim now member preferred4 preferred6 granted m reg₁ reg') :
    (∀ ip, granted.ip4 = some ip → cfg.inTunnel (.v4 ip)) ∧
      ∀ ip, granted.ip6 = some ip → cfg.inTunnel (.v6 ip) := by
  refine ⟨fun ip hip => ?_, fun ip hip => ?_⟩
  · refine (hip ▸ h.pick4).inTunnel (fun hw => (h.want4 ip hw).1) (fun _ => v4Pool_contains_host) fun hin => ?_
    obtain ⟨net, len, hcidr, hcontains⟩ := v4Pool_contains_iff.mp hin
    exact inTunnel_of_mem (mem_cidrs_of_ipv4Cidr hcidr) hcontains
  · refine (hip ▸ h.pick6).inTunnel (fun hw => (h.want6 ip hw).1) (fun _ => v6Pool_contains_host) fun hin => ?_
    obtain ⟨net, len, hcidr, hcontains⟩ := v6Pool_contains_iff.mp hin
    exact inTunnel_of_mem (mem_cidrs_of_ipv6Cidr hcidr) hcontains

end Ipam

/-! ### The records -/

variable {r : MemberRecord} {ip : IpAddr}

theorem MemberRecord.mem_addresses :
    ip ∈ r.addresses ↔ (∃ a, r.ip4 = some a ∧ .v4 a = ip) ∨ ∃ a, r.ip6 = some a ∧ .v6 a = ip := by
  simp [MemberRecord.addresses]

theorem MemberRecord.Amends.addresses {r' : MemberRecord} (h : r.Amends r') (hip : ip ∈ r'.addresses) :
    ip ∈ r.addresses := by
  rcases MemberRecord.mem_addresses.mp hip with ⟨a, ha, rfl⟩ | ⟨a, ha, rfl⟩
  · exact MemberRecord.mem_addresses.mpr (.inl ⟨a, h.ip4 a ha, rfl⟩)
  · exact MemberRecord.mem_addresses.mpr (.inr ⟨a, h.ip6 a ha, rfl⟩)

def Registry.Tunnelled (cfg : NetworkConfig) (reg : Registry) : Prop :=
  ∀ (id : NodeId) (r : MemberRecord), reg.members[id]? = some r → ∀ ip ∈ r.addresses,
    cfg.inTunnel ip = true

namespace Registry.Tunnelled

variable {cfg cfg' : NetworkConfig} {reg reg' : Registry}

theorem of_new (cfg : NetworkConfig) (uuid : String) : Tunnelled cfg (Registry.new uuid) := by
  intro id r hr
  simp [Registry.new] at hr

theorem amends (h : reg.Tunnelled cfg) (ha : reg.Amends reg') : reg'.Tunnelled cfg := by
  intro id r' hr' ip hip
  obtain ⟨r, hr, hrec⟩ := ha.members id r' hr'
  exact h id r hr ip (hrec.addresses hip)

theorem pares (h : reg.Tunnelled cfg) (hcfg : cfg.Pares cfg') : reg.Tunnelled cfg' := by
  intro id r hr ip hip
  unfold inTunnel
  rw [hcfg.cidrs]
  exact h id r hr ip hip

theorem validated {env : CoordText} (hv : validateAssignments env cfg reg = .ok ()) :
    reg.Tunnelled cfg := by
  intro id r hr ip hip
  simp only [validateAssignments, bind_eq_ok, each_eq_ok, ensure_eq_ok] at hv
  obtain ⟨_, htunnel, -⟩ := hv
  exact htunnel r (Ipam.mem_records.mpr ⟨id, hr⟩) ip hip

end Registry.Tunnelled

namespace NetState

variable {env : CoordText} {ns : NetState} {reg : Registry} {granted : Granted} {name : String} {t : Clock}

theorem Allots.inTunnel {m : MemberCfg} (h : ns.Allots env name m t granted reg) :
    (∀ ip, granted.ip4 = some ip → ns.cfg.inTunnel (.v4 ip)) ∧
      ∀ ip, granted.ip6 = some ip → ns.cfg.inTunnel (.v6 ip) := by
  unfold Allots at h
  split_ifs at h
  · obtain ⟨_, _, _, -, h⟩ := Ipam.allocateInner_eq_ok h
    exact h.inTunnel
  · obtain ⟨rfl, -⟩ := h
    refine ⟨fun ip hip => ?_, fun ip hip => ?_⟩ <;> cases hip

theorem Plans.tunnelled {presented : String} {req : JoinRequest} {peerIp : String} {plan : JoinPlan}
    {relayAddr : Option String} (h : ns.Plans env name presented req peerIp t plan granted reg relayAddr)
    (hreg : ns.registry.Tunnelled ns.cfg) : plan.registry.Tunnelled ns.cfg := by
  intro id r hr ip hip
  rcases h.member_cases hr with ⟨-, rfl⟩ | ⟨-, hold⟩
  · obtain ⟨h4, h6⟩ := h.allots.inTunnel
    rcases MemberRecord.mem_addresses.mp hip with ⟨a, ha, rfl⟩ | ⟨a, ha, rfl⟩
    · exact h4 a (h.signs.ip4 ▸ ha)
    · exact h6 a (h.signs.ip6 ▸ ha)
  · exact hreg.amends h.allots.amends id r hold ip hip

end NetState

end Nqvpn
