import Nqvpn.RecordedLans
import Nqvpn.UsableAddresses

/-!
# What an accepted configuration satisfies

Validation goes through the members one by one, and through the other members for each LAN. What it
has established at the end holds of all pairs: the prefixes and addresses of a network are apart, and
no relay is reached through the network itself. The canonical form it writes is accepted again.
-/

namespace Nqvpn

open Fallible List

/-- The address a relay's text names, if it is a literal one. An IPv4-mapped IPv6 address names the
IPv4 address. -/
def literalEndpoint (env : CoordText) (addr : String) : Option IpAddr :=
  match autoPort addr with
  | some _ => none
  | none => (hostPort addr).bind fun parts => (env.parseIp (bareHost parts.1)).map IpAddr.toCanonical

namespace NetworkConfig

/-- The prefixes and addresses of a network do not get in each other's way. -/
structure Sound (env : CoordText) (cfg : NetworkConfig) : Prop where
  /-- LANs of different members are the same or have no address in common. -/
  lansApart : ∀ m ∈ cfg.members, ∀ m' ∈ cfg.members, m.1 ≠ m'.1 →
    ∀ c ∈ m.2.1.localCidrs, ∀ c' ∈ m'.2.1.localCidrs, c = c' ∨ c.Disjoint c'
  /-- No LAN has an address of the tunnel space. -/
  lansOutside : ∀ m ∈ cfg.members, ∀ c ∈ m.2.1.localCidrs, ∀ t ∈ cfg.cidrs, c.Disjoint t
  staticDistinct : (cfg.members.flatMap (·.2.1.addresses)).Nodup
  staticInside : ∀ m ∈ cfg.members, ∀ ip ∈ m.2.1.addresses, ∃ t ∈ cfg.cidrs, t.containsAddr ip = true
  staticHost : ∀ m ∈ cfg.members, ∀ ip, m.2.1.preferredIp4 = some ip → ¬ cfg.EdgeV4 ip
  endpoints : ∀ m ∈ cfg.members, ∀ addr, m.2.1.relayAddr = some addr → ∀ ip, literalEndpoint env addr = some ip →
    (cfg.settings.allowLoopbackRelays = true ∧ ip.isLoopback = true) ∨
      (∀ t ∈ cfg.cidrs, t.containsAddr ip = false) ∧
        (∀ m' ∈ cfg.members, ∀ c ∈ m'.2.1.localCidrs, c.containsAddr ip = false) ∧
        ip.isLoopback = false ∧ ip.isUnspecified = false ∧ ip.isMulticast = false

variable {env : CoordText} {resolve : Resolver} {cfg cfg' : NetworkConfig}

/-! ### Static addresses -/

variable {addr field name : String} {ip : IpAddr} {claimed claimed' : ClaimedAddrs}
  {m : String × MemberCfg × Role}

theorem not_edge_of_checkNotEdge {a : BitVec 32}
    (h : checkAddress.checkNotEdge env cfg field name ip (.v4 a) = .ok ()) : ¬ cfg.EdgeV4 a := by
  rintro ⟨net, len, hcidr, hlen, hedge⟩
  simp only [checkAddress.checkNotEdge, hcidr, ensure_eq_ok] at h
  exact h ⟨hlen, hedge⟩

theorem checkAddress_eq_ok (h : checkAddress env cfg field name ip claimed = .ok claimed') :
    cfg.inTunnel ip ∧ checkAddress.checkNotEdge env cfg field name ip ip = .ok () ∧
      ip ∉ claimed.map Prod.fst ∧ claimed' = (ip, name) :: claimed := by
  simp only [checkAddress, bind_eq_ok, ensure_eq_ok, pure_eq_ok] at h
  obtain ⟨_, -, _, hinside, _, hedge, _, hunclaimed, rfl⟩ := h
  refine ⟨hinside, hedge, fun hmem => ?_, rfl⟩
  obtain ⟨prev, hprev, hsame⟩ := mem_map.mp hmem
  cases hfind : claimed.find? (·.1 = ip) with
  | none => simpa [hsame] using find?_eq_none.mp hfind prev hprev
  | some first =>
    rw [hfind] at hunclaimed
    simp at hunclaimed

def claimStatic (env : CoordText) (cfg : NetworkConfig) (field name : String) (static : Option IpAddr)
    (claimed : ClaimedAddrs) : Except String ClaimedAddrs :=
  match static with
  | some ip => checkAddress env cfg field name ip claimed
  | none => .ok claimed

theorem claimStatic_eq_ok {static : Option IpAddr}
    (h : claimStatic env cfg field name static claimed = .ok claimed') (hnodup : (claimed.map Prod.fst).Nodup) :
    (claimed'.map Prod.fst).Nodup ∧ claimed'.map Prod.fst = static.toList ++ claimed.map Prod.fst ∧
      ∀ ip ∈ static, cfg.inTunnel ip ∧
        checkAddress.checkNotEdge env cfg field name ip ip = .ok () := by
  cases static with
  | none =>
    cases h
    exact ⟨hnodup, rfl, fun ip hip => nomatch hip⟩
  | some ip =>
    obtain ⟨hinside, hedge, hunclaimed, rfl⟩ := checkAddress_eq_ok h
    refine ⟨nodup_cons.mpr ⟨hunclaimed, hnodup⟩, rfl, ?_⟩
    rintro _ ⟨⟩
    exact ⟨hinside, hedge⟩

theorem checkMember_claims {m : MemberCfg} {role : Role}
    (h : checkMember env resolve cfg claimed (name, m, role) = .ok claimed') :
    ∃ claimed₁, claimStatic env cfg "preferred_ip4" name (m.preferredIp4.map .v4) claimed = .ok claimed₁ ∧
      claimStatic env cfg "preferred_ip6" name (m.preferredIp6.map .v6) claimed₁ = .ok claimed' := by
  simp only [checkMember, bind_eq_ok] at h
  obtain ⟨_, -, _, -, _, -, h⟩ := h
  cases hip4 : m.preferredIp4 with
  | none | some ip =>
    rw [hip4] at h
    obtain ⟨claimed₁, h4, h6⟩ := bind_eq_ok.mp h
    refine ⟨claimed₁, h4, ?_⟩
    cases hip6 : m.preferredIp6 with
    | none | some ip =>
      rw [hip6] at h6
      exact h6

theorem checkMember_eq_ok (h : checkMember env resolve cfg claimed m = .ok claimed')
    (hnodup : (claimed.map Prod.fst).Nodup) :
    (claimed'.map Prod.fst).Nodup ∧
      claimed'.map Prod.fst = m.2.1.addresses.reverse ++ claimed.map Prod.fst ∧
      (∀ ip ∈ m.2.1.addresses, cfg.inTunnel ip) ∧
      ∀ ip, m.2.1.preferredIp4 = some ip → ¬ cfg.EdgeV4 ip := by
  obtain ⟨name, m, role⟩ := m
  obtain ⟨claimed₁, h4, h6⟩ := checkMember_claims h
  obtain ⟨hnodup₁, hmap₁, hstatic4⟩ := claimStatic_eq_ok h4 hnodup
  obtain ⟨hnodup', hmap', hstatic6⟩ := claimStatic_eq_ok h6 hnodup₁
  refine ⟨hnodup', ?_, fun ip hip => ?_, fun ip hip => ?_⟩
  · rw [hmap', hmap₁, MemberCfg.addresses, reverse_append]
    cases m.preferredIp4 <;> cases m.preferredIp6 <;> rfl
  · rcases mem_append.mp hip with hip | hip
    · exact (hstatic4 ip (Option.mem_toList.mp hip)).1
    · exact (hstatic6 ip (Option.mem_toList.mp hip)).1
  · exact not_edge_of_checkNotEdge (hstatic4 (.v4 ip) (Option.mem_map_of_mem _ hip)).2

theorem foldlM_checkMember {members : List (String × MemberCfg × Role)}
    (h : members.foldlM (checkMember env resolve cfg) claimed = .ok claimed')
    (hnodup : (claimed.map Prod.fst).Nodup) :
    (claimed'.map Prod.fst).Nodup ∧
      claimed'.map Prod.fst = (members.flatMap (·.2.1.addresses)).reverse ++ claimed.map Prod.fst ∧
      ∀ m ∈ members, (∀ ip ∈ m.2.1.addresses, cfg.inTunnel ip) ∧
        ∀ ip, m.2.1.preferredIp4 = some ip → ¬ cfg.EdgeV4 ip := by
  induction members generalizing claimed with
  | nil =>
    cases h
    exact ⟨hnodup, rfl, fun m hm => nomatch hm⟩
  | cons m members ih =>
    obtain ⟨claimed₁, hm, hrest⟩ := bind_eq_ok.mp h
    obtain ⟨hnodup₁, hmap₁, hstatic⟩ := checkMember_eq_ok hm hnodup
    obtain ⟨hnodup', hmap', hothers⟩ := ih hrest hnodup₁
    refine ⟨hnodup', ?_, forall_mem_cons.mpr ⟨hstatic, hothers⟩⟩
    rw [hmap', hmap₁, flatMap_cons, reverse_append, append_assoc]

theorem static_of_check (h : cfg.check env resolve = .ok ()) :
    (cfg.members.flatMap (·.2.1.addresses)).Nodup ∧
      ∀ m ∈ cfg.members, (∀ ip ∈ m.2.1.addresses, cfg.inTunnel ip) ∧
        ∀ ip, m.2.1.preferredIp4 = some ip → ¬ cfg.EdgeV4 ip := by
  simp only [check, bind_eq_ok] at h
  obtain ⟨-, -, -, -, -, -, -, -, claimed, hmembers, -⟩ := h
  obtain ⟨hnodup, hmap, hstatic⟩ := foldlM_checkMember hmembers nodup_nil
  rw [hmap, map_nil, append_nil] at hnodup
  exact ⟨nodup_reverse.mp hnodup, hstatic⟩

/-! ### Relay endpoints -/

theorem not_unroutable (h : ip.unroutable = false) :
    ip.isLoopback = false ∧ ip.isUnspecified = false ∧ ip.isMulticast = false := by
  simp only [IpAddr.unroutable, Bool.or_eq_false_iff] at h
  obtain ⟨⟨⟨⟨⟨hloopback, hunspecified⟩, hmulticast⟩, -⟩, -⟩, -⟩ := h
  exact ⟨hloopback, hunspecified, hmulticast⟩

theorem toCanonical_toCanonical (ip : IpAddr) : ip.toCanonical.toCanonical = ip.toCanonical := by
  cases ip with
  | v4 a => rfl
  | v6 a =>
    simp only [IpAddr.toCanonical]
    split_ifs with hmapped
    · rfl
    · simp [hmapped]

theorem checkRelayIp_of_check (h : cfg.check env resolve = .ok ()) (hm : m ∈ cfg.members)
    (haddr : m.2.1.relayAddr = some addr) (hip : literalEndpoint env addr = some ip) : checkRelayIp env m.1 addr ip cfg = .ok () := by
  have hfields := checkRoleFields_of_check h hm
  cases hrole : m.2.2 with
  | client =>
    rw [hrole] at hfields
    simp only [checkRoleFields, ensure_eq_ok] at hfields
    rw [haddr] at hfields
    cases hfields.1
  | relay =>
    rw [hrole] at hfields
    simp only [checkRoleFields, bind_eq_ok, orFail_eq_ok] at hfields
    obtain ⟨_, -, _, -, addr', haddr', _, hvalid, -⟩ := hfields
    cases haddr.symm.trans haddr'
    unfold literalEndpoint at hip
    unfold validateRelayAddr at hvalid
    cases hauto : autoPort addr with
    | some port =>
      rw [hauto] at hip
      cases hip
    | none =>
      rw [hauto] at hip hvalid
      simp only [bind_eq_ok, orFail_eq_ok] at hip hvalid
      obtain ⟨parts, hparts, port, -, hjudged⟩ := hvalid
      rw [hparts, Option.bind_some] at hip
      obtain ⟨ip₀, hip₀, rfl⟩ := Option.map_eq_some_iff.mp hip
      rw [hip₀] at hjudged
      have hjudged := each_eq_ok.mp hjudged ip₀ (mem_singleton_self ip₀)
      unfold checkRelayIp at hjudged ⊢
      rwa [toCanonical_toCanonical]

theorem endpoint_of_checkRelayIp (hcanonical : ip.toCanonical = ip)
    (h : checkRelayIp env name addr ip cfg = .ok ()) :
    (cfg.settings.allowLoopbackRelays ∧ ip.isLoopback) ∨
      (∀ t ∈ cfg.cidrs, t.containsAddr ip = false) ∧
        (∀ m' ∈ cfg.members, ∀ c ∈ m'.2.1.localCidrs, c.containsAddr ip = false) ∧
        ip.isLoopback = false ∧ ip.isUnspecified = false ∧ ip.isMulticast = false := by
  simp only [checkRelayIp, hcanonical] at h
  split_ifs at h with hallowed
  · exact .inl (Bool.and_eq_true_iff.mp hallowed)
  · simp only [bind_eq_ok, ensure_eq_ok] at h
    obtain ⟨-, hroutable, -, htunnel, hlan⟩ := h
    refine .inr ⟨fun t ht => ?_, fun m' hm' c hc => ?_, not_unroutable hroutable⟩
    · exact Bool.eq_false_iff.mpr (any_eq_false.mp htunnel t ht)
    · have hnone := any_eq_false.mp hlan m' hm'
      exact Bool.eq_false_iff.mpr (any_eq_false.mp (Bool.eq_false_iff.mpr hnone) c hc)

/-! ### Canonical form -/

theorem truncated_truncated (cfg : NetworkConfig) : cfg.truncated.truncated = cfg.truncated := by
  have hcidrs (l : List IpNet) : (l.map IpNet.trunc).map IpNet.trunc = l.map IpNet.trunc := by
    rw [map_map]
    exact map_congr_left fun c _ => c.trunc_trunc
  have hrelays (relays : Std.ExtTreeMap String MemberCfg) :
      (relays.map fun _ m => { m with localCidrs := m.localCidrs.map IpNet.trunc }).map
          (fun _ m => { m with localCidrs := m.localCidrs.map IpNet.trunc }) =
        relays.map fun _ m => { m with localCidrs := m.localCidrs.map IpNet.trunc } := by
    refine Std.ExtTreeMap.ext_getElem? fun name => ?_
    simp only [Std.ExtTreeMap.getElem?_map, Option.map_map]
    cases relays[name]? with
    | none => rfl
    | some m => simp [hcidrs]
  simp [truncated, hcidrs, hrelays]

theorem validateNetworkWith_idempotent (h : validateNetworkWith env resolve cfg = .ok cfg') :
    validateNetworkWith env resolve cfg' = .ok cfg' := by
  obtain ⟨rfl, hcheck⟩ := validateNetworkWith_eq_ok h
  unfold validateNetworkWith
  rw [truncated_truncated, hcheck]
  rfl

/-! ### Soundness -/

theorem sound_of_validated (h : validateNetworkWith env resolve cfg = .ok cfg') : cfg'.Sound env := by
  have hlans := lansChecked_of_validated h
  obtain ⟨-, hcheck⟩ := validateNetworkWith_eq_ok h
  obtain ⟨hnodup, hstatic⟩ := static_of_check hcheck
  refine ⟨fun m hm m' hm' hne c hc c' hc' => ?_, fun m hm c hc t ht => ?_, hnodup,
    fun m hm ip hip => any_eq_true.mp ((hstatic m hm).1 ip hip), fun m hm => (hstatic m hm).2,
    fun m hm addr haddr ip hip => ?_⟩
  · by_cases hoverlap : c.overlaps c'
    · exact .inl (hlans.apart m hm m' hm' hne c hc c' hc' hoverlap)
    · exact .inr (IpNet.disjoint_iff_overlaps.mpr (Bool.eq_false_iff.mpr hoverlap))
  · exact IpNet.disjoint_iff_overlaps.mpr (hlans.outside m hm c hc t ht)
  · refine endpoint_of_checkRelayIp ?_ (checkRelayIp_of_check hcheck hm haddr hip)
    unfold literalEndpoint at hip
    split at hip
    · cases hip
    · obtain ⟨parts, -, hip⟩ := Option.bind_eq_some_iff.mp hip
      obtain ⟨ip₀, -, rfl⟩ := Option.map_eq_some_iff.mp hip
      exact toCanonical_toCanonical ip₀

end NetworkConfig

/-! ### A network with a pair of relays -/

namespace ValidationExample

/-- The host `h` is 8.8.8.8. -/
def env : CoordText :=
  { CoordText.byteText with parseIp := fun host => if host = "h" then some (.v4 0x08080808#32) else none }

/-- A relay at `h` for the LAN around this address. -/
def relay (secret : String) (host ip : BitVec 32) : MemberCfg :=
  { MemberCfg.default with
    secret := some secret
    relayAddr := some "h:1"
    localCidrs := [.v4 host ⟨24, Nat.lt_add_left 8 (Nat.lt_succ_self 24)⟩]
    preferredIp4 := some ip }

/-- Two relays for 192.168.0.0/24 in the tunnel space 10.0.0.0/24, all written with host bits. -/
def cfg : NetworkConfig :=
  { NetworkExample.cfg with
    cidrs := [.v4 0x0a000003#32 ⟨24, Nat.lt_add_left 8 (Nat.lt_succ_self 24)⟩]
    relays := ((∅ : Std.ExtTreeMap String MemberCfg).insert "r1" (relay "s1" 0xc0a80007#32 0x0a000005#32)).insert
      "r2" (relay "s2" 0xc0a80009#32 0x0a000006#32) }

end ValidationExample

namespace NetworkConfig

variable {env : CoordText} {resolve : Resolver} {cfg cfg' : NetworkConfig}

/-- Whatever the name service answers, a configuration that validation accepts is sound in its canonical
form; that form is accepted again and not changed; and the overlap test of the LANs is exact. -/
theorem validation_sound (h : validateNetworkWith env resolve cfg = .ok cfg') :
    cfg'.Sound env ∧ validateNetworkWith env resolve cfg' = .ok cfg' ∧
      ∀ a b : IpNet, a.overlaps b = true ↔ ∃ ip, a.containsAddr ip = true ∧ b.containsAddr ip = true :=
  ⟨sound_of_validated h, validateNetworkWith_idempotent h, fun _ _ => IpNet.overlaps_eq_true_iff⟩

/-- The two relays declare one LAN, and are reached from outside of it. -/
theorem validation_sound_pair :
    validateNetworkWith ValidationExample.env (fun _ _ => []) ValidationExample.cfg =
        .ok ValidationExample.cfg.truncated ∧
      literalEndpoint ValidationExample.env "h:1" = some (.v4 0x08080808#32) ∧
      ValidationExample.cfg.truncated.Sound ValidationExample.env := by
  have hvalid : validateNetworkWith ValidationExample.env (fun _ _ => []) ValidationExample.cfg =
      .ok ValidationExample.cfg.truncated := by decide +kernel
  exact ⟨hvalid, by decide +kernel, (validation_sound hvalid).1⟩

end NetworkConfig

end Nqvpn
