import Nqvpn.TunnelAddresses

/-!
# The LANs on record

A validated configuration keeps the LANs of different relays apart from each other and from the
tunnel space. What is published comes from the records, though, where a join files the LANs its
member is declared to have at that moment, and where they stay until it joins again.
-/

namespace Nqvpn

open Fallible DurableRows List

/-! ### Declared LANs -/

namespace NetworkConfig

/-- What validation says of the LANs that members declare. -/
structure LansChecked (cfg : NetworkConfig) : Prop where
  relay : ∀ m ∈ cfg.members, m.2.1.localCidrs ≠ [] → m.2.2 = .relay
  canonical : ∀ m ∈ cfg.members, ∀ c ∈ m.2.1.localCidrs, c.trunc = c
  outside : ∀ m ∈ cfg.members, ∀ c ∈ m.2.1.localCidrs, ∀ t ∈ cfg.cidrs, c.overlaps t = false
  apart : ∀ m ∈ cfg.members, ∀ m' ∈ cfg.members, m.1 ≠ m'.1 → ∀ c ∈ m.2.1.localCidrs,
    ∀ c' ∈ m'.2.1.localCidrs, c.overlaps c' = true → c = c'

variable {cfg cfg' : NetworkConfig} {env : CoordText} {resolve : Resolver}
variable {m : String × MemberCfg × Role} {c : IpNet}

theorem canonical_truncated (hm : m ∈ cfg.truncated.members) (hrole : m.2.2 = .relay)
    (hc : c ∈ m.2.1.localCidrs) : c.trunc = c := by
  rcases mem_members.mp hm with ⟨hclient, -⟩ | ⟨-, hrelay⟩
  · rw [hrole] at hclient
    cases hclient
  · simp only [truncated, Std.ExtTreeMap.getElem?_map] at hrelay
    obtain ⟨m₀, -, heq⟩ := Option.map_eq_some_iff.mp hrelay
    rw [← heq] at hc
    obtain ⟨c₀, -, rfl⟩ := mem_map.mp hc
    exact c₀.trunc_trunc

theorem checkRoleFields_of_check (h : cfg.check env resolve = .ok ()) (hm : m ∈ cfg.members) : checkRoleFields env resolve cfg m.1 m.2.1 m.2.2 = .ok () := by
  simp only [check, bind_eq_ok] at h
  obtain ⟨-, -, -, -, -, -, -, -, claimed, hmembers, -⟩ := h
  obtain ⟨before, after, hmember⟩ := exists_of_foldlM_eq_ok hmembers hm
  simp only [checkMember, bind_eq_ok] at hmember
  obtain ⟨_, -, _, hrole, -⟩ := hmember
  exact hrole

theorem checkLocalCidr_of_check (h : cfg.check env resolve = .ok ()) (hm : m ∈ cfg.members)
    (hc : c ∈ m.2.1.localCidrs) :
    m.2.2 = .relay ∧ checkLocalCidr env cfg m.1 c = .ok () := by
  have hfields := checkRoleFields_of_check h hm
  cases hrole : m.2.2 with
  | client =>
    rw [hrole] at hfields
    simp only [checkRoleFields, ensure_eq_ok] at hfields
    rw [hfields.2.1] at hc
    cases hc
  | relay =>
    rw [hrole] at hfields
    simp only [checkRoleFields, bind_eq_ok, each_eq_ok] at hfields
    obtain ⟨-, -, -, -, -, -, -, -, hlans⟩ := hfields
    exact ⟨rfl, hlans c hc⟩

theorem lansChecked_of_validated {cfg₀ : NetworkConfig}
    (h : validateNetworkWith env resolve cfg₀ = .ok cfg) : cfg.LansChecked := by
  obtain ⟨rfl, hcheck⟩ := validateNetworkWith_eq_ok h
  have hlan {m : String × MemberCfg × Role} (hm : m ∈ cfg₀.truncated.members) {c : IpNet}
      (hc : c ∈ m.2.1.localCidrs) := checkLocalCidr_of_check hcheck hm hc
  refine ⟨fun m hm hne => ?_, fun m hm c hc => ?_, fun m hm c hc t ht => ?_,
    fun m hm m' hm' hne c hc c' hc' hoverlap => ?_⟩
  · obtain ⟨c, hc⟩ := exists_mem_of_ne_nil _ hne
    exact (hlan hm hc).1
  · exact canonical_truncated hm (hlan hm hc).1 hc
  · have hchecked := (hlan hm hc).2
    simp only [checkLocalCidr, bind_eq_ok, each_eq_ok, ensure_eq_ok] at hchecked
    obtain ⟨-, htunnel, -⟩ := hchecked
    exact htunnel t ht
  · have hchecked := (hlan hm hc).2
    simp only [checkLocalCidr, bind_eq_ok, each_eq_ok, ensure_eq_ok] at hchecked
    obtain ⟨-, -, hothers⟩ := hchecked
    obtain ⟨-, hlans, -⟩ := hothers m' (mem_filter.mpr ⟨hm', by simpa using Ne.symm hne⟩)
    have hsame := not_and_not_right.mp (hlans c' hc') hoverlap
    rwa [canonical_truncated hm (hlan hm hc).1 hc, canonical_truncated hm' (hlan hm' hc').1 hc'] at hsame

theorem LansChecked.pares (h : cfg.LansChecked) (hcfg : cfg.Pares cfg') : cfg'.LansChecked := by
  have hback {m' : String × MemberCfg × Role} (hm' : m' ∈ cfg'.members) :
      ∃ m ∈ cfg.members, m.1 = m'.1 ∧ m.2.2 = m'.2.2 ∧ m.2.1.localCidrs = m'.2.1.localCidrs := by
    obtain ⟨m, hm, hname, hrole, secret, heq⟩ := hcfg.members m' hm'
    exact ⟨m, hm, hname, hrole, by rw [heq]⟩
  refine ⟨fun m' hm' hne => ?_, fun m' hm' c hc => ?_, fun m' hm' c hc t ht => ?_,
    fun m₁ hm₁ m₂ hm₂ hne c hc c' hc' hoverlap => ?_⟩
  · obtain ⟨m, hm, -, hrole, hlans⟩ := hback hm'
    exact hrole ▸ h.relay m hm (hlans ▸ hne)
  · obtain ⟨m, hm, -, -, hlans⟩ := hback hm'
    exact h.canonical m hm c (hlans ▸ hc)
  · obtain ⟨m, hm, -, -, hlans⟩ := hback hm'
    exact h.outside m hm c (hlans ▸ hc) t (hcfg.cidrs ▸ ht)
  · obtain ⟨n₁, hn₁, hname₁, -, hlans₁⟩ := hback hm₁
    obtain ⟨n₂, hn₂, hname₂, -, hlans₂⟩ := hback hm₂
    refine h.apart n₁ hn₁ n₂ hn₂ ?_ c (hlans₁ ▸ hc) c' (hlans₂ ▸ hc') hoverlap
    rwa [hname₁, hname₂]

def DeclaresLan (cfg : NetworkConfig) (c : IpNet) : Prop := ∃ m ∈ cfg.members, c ∈ m.2.1.localCidrs

def OwnLansApart (cfg : NetworkConfig) : Prop :=
  ∀ m ∈ cfg.members, ∀ c ∈ m.2.1.localCidrs, ∀ c' ∈ m.2.1.localCidrs, c.overlaps c' = true → c = c'

theorem LansChecked.eq_of_overlaps (h : cfg.LansChecked) (hown : cfg.OwnLansApart) {c' : IpNet}
    (hc : cfg.DeclaresLan c) (hc' : cfg.DeclaresLan c') (hoverlap : c.overlaps c') : c = c' := by
  obtain ⟨m, hm, hc⟩ := hc
  obtain ⟨m', hm', hc'⟩ := hc'
  by_cases hname : m.1 = m'.1
  · -- Both are relays, and a relay has one name.
    have hrelay {n : String × MemberCfg × Role} {l : IpNet} (hn : n ∈ cfg.members)
        (hl : l ∈ n.2.1.localCidrs) : cfg.relays[n.1]? = some n.2.1 := by
      rcases mem_members.mp hn with ⟨hclient, -⟩ | ⟨-, hrelay⟩
      · have hrole := h.relay n hn (ne_nil_of_mem hl)
        rw [hrole] at hclient
        cases hclient
      · exact hrelay
    have hsame : m.2.1 = m'.2.1 := by
      have hfound := hrelay hm hc
      rw [hname, hrelay hm' hc'] at hfound
      exact (Option.some.inj hfound).symm
    exact hown m hm c hc c' (hsame ▸ hc') hoverlap
  · exact h.apart m hm m' hm' hname c hc c' hc' hoverlap

theorem LansChecked.not_inTunnel (h : cfg.LansChecked) (hc : cfg.DeclaresLan c) {ip : IpAddr}
    (hip : cfg.inTunnel ip) : c.containsAddr ip = false := by
  obtain ⟨m, hm, hc⟩ := hc
  obtain ⟨t, ht, htip⟩ := any_eq_true.mp hip
  have hdisjoint := IpNet.disjoint_iff_overlaps.mpr (h.outside m hm c hc t ht)
  refine Bool.eq_false_iff.mpr fun hcip => ?_
  exact hdisjoint ip ⟨hcip, htip⟩

end NetworkConfig

/-! ### Recorded LANs -/

namespace Registry

def Registers (reg : Registry) (c : IpNet) : Prop :=
  ∃ (id : NodeId) (r : MemberRecord), reg.members[id]? = some r ∧ ∃ x ∈ r.routes, x.cidr = c

def Records (reg : Registry) (c : IpNet) : Prop := c.isDefault = false ∧ reg.Registers c

/-- Recorded LANs are the same or apart, and hold no member's address. -/
structure LansApart (reg : Registry) : Prop where
  lans : ∀ c c', reg.Records c → reg.Records c' → c.overlaps c' = true → c = c'
  addresses : ∀ c, reg.Records c → ∀ (id : NodeId) (r : MemberRecord), reg.members[id]? = some r →
    ∀ ip ∈ r.addresses, c.containsAddr ip = false

variable {cfg : NetworkConfig} {reg reg' : Registry}

theorem lansApart_new (uuid : String) : (Registry.new uuid).LansApart := by
  refine ⟨fun c c' hc => ?_, fun c hc id r hr => ?_⟩
  · obtain ⟨-, id, r, hr, -⟩ := hc
    simp [Registry.new] at hr
  · simp [Registry.new] at hr

theorem Amends.records (ha : reg.Amends reg') {c : IpNet} (h : reg'.Records c) : reg.Records c := by
  obtain ⟨hdefault, id, r', hr', x, hx, heq⟩ := h
  obtain ⟨r, hr, hrec⟩ := ha.members id r' hr'
  exact ⟨hdefault, id, r, hr, x, hrec.routes ▸ hx, heq⟩

theorem LansApart.amends (h : reg.LansApart) (ha : reg.Amends reg') : reg'.LansApart := by
  refine ⟨fun c c' hc hc' => h.lans c c' (ha.records hc) (ha.records hc'), fun c hc id r' hr' ip hip => ?_⟩
  obtain ⟨r, hr, hrec⟩ := ha.members id r' hr'
  exact h.addresses c (ha.records hc) id r hr ip (hrec.addresses hip)

theorem lansApart_of_declared (hcfg : cfg.LansChecked) (hown : cfg.OwnLansApart)
    (hreg : ∀ c, reg.Records c → cfg.DeclaresLan c) (htunnel : reg.Tunnelled cfg) : reg.LansApart where
  lans c c' hc hc' hoverlap := hcfg.eq_of_overlaps hown (hreg c hc) (hreg c' hc') hoverlap
  addresses c hc id r hr ip hip := hcfg.not_inTunnel (hreg c hc) (htunnel id r hr ip hip)

end Registry

namespace NetState

variable {env : CoordText} {ns ns' : NetState}

/-! ### A join files the declared LANs -/

theorem mem_renewRoutes {existing : List RouteReg} {declared : List IpNet} {now : Nat} :
    ∀ x ∈ renewRoutes existing declared now, x.cidr ∈ declared := by
  refine foldlRecOn (motive := fun routes : List RouteReg => ∀ x ∈ routes, x.cidr ∈ declared)
    declared _ ?_ ?_
  · intro x hx
    simpa using (mem_filter.mp hx).2
  · intro routes hroutes c hc x hx
    split_ifs at hx
    · exact hroutes x hx
    · rcases mem_append.mp hx with hx | hx
      · exact hroutes x hx
      · rw [mem_singleton.mp hx]
        exact hc

variable {c : IpNet} {name peerIp presented : String} {req : JoinRequest} {t : Clock} {plan : JoinPlan}
  {granted : Granted} {reg : Registry} {relayAddr : Option String} {cfg : NetworkConfig}

theorem mem_declaredRoutes {m : MemberCfg} {role : Role} (h : c ∈ declaredRoutes m role)
    (hdefault : c.isDefault = false) : ∃ l ∈ m.localCidrs, l.trunc = c := by
  unfold declaredRoutes at h
  cases role with
  | client => simp at h
  | relay =>
    simp only [if_true, true_and] at h
    split_ifs at h with hexit
    · rcases mem_append.mp h with hlan | hexits
      · exact mem_map.mp hlan
      · simp only [mem_cons, not_mem_nil, or_false] at hexits
        rcases hexits with rfl | rfl <;> cases hdefault
    · exact mem_map.mp h

/-- The LANs on record of everybody but `name` are still declared, and no member has two that
overlap. -/
structure LansSettled (ns : NetState) (name : String) : Prop where
  declared : ∀ r ∈ ns.registry.records, r.name ≠ name → ∀ x ∈ r.routes, x.cidr.isDefault = false →
    ns.cfg.DeclaresLan x.cidr
  own : ns.cfg.OwnLansApart

instance decidableLansSettled (ns : NetState) (name : String) : Decidable (ns.LansSettled name) :=
  decidable_of_iff
    ((∀ r ∈ ns.registry.records, r.name ≠ name → ∀ x ∈ r.routes, x.cidr.isDefault = false →
      ∃ m ∈ ns.cfg.members, x.cidr ∈ m.2.1.localCidrs) ∧
      ∀ m ∈ ns.cfg.members, ∀ c ∈ m.2.1.localCidrs, ∀ c' ∈ m.2.1.localCidrs, c.overlaps c' = true → c = c')
    ⟨fun h => ⟨h.1, h.2⟩, fun h => ⟨h.declared, h.own⟩⟩

theorem Plans.routes (h : ns.Plans env name presented req peerIp t plan granted reg relayAddr) :
    plan.record.routes = renewRoutes (((ns.registry.byName name).map (·.routes)).getD [])
      (declaredRoutes plan.member plan.role) t.now := by
  rw [(Prod.mk.inj h.written).2]
  unfold joinedRecord
  split_ifs <;> rfl

theorem Plans.declares (h : ns.Plans env name presented req peerIp t plan granted reg relayAddr)
    (hfiled : ns.registry.Filed) (hcfg : ns.cfg.LansChecked) (hsettled : ns.LansSettled name)
    (hc : plan.registry.Records c) : ns.cfg.DeclaresLan c := by
  obtain ⟨hdefault, id, r, hr, x, hx, rfl⟩ := hc
  rcases h.member_cases hr with ⟨-, rfl⟩ | ⟨hid, hold⟩
  · -- The joining member: its routes are the ones the configuration gives it.
    rw [h.routes] at hx
    obtain ⟨l, hl, heq⟩ := mem_declaredRoutes (mem_renewRoutes x hx) hdefault
    have hmember : (name, plan.member, plan.role) ∈ ns.cfg.members :=
      NetworkConfig.mem_members_of_memberByName (Option.filter_eq_some_iff.mp h.authentic).1
    rw [← heq, hcfg.canonical _ hmember l hl]
    exact ⟨_, hmember, hl⟩
  · -- Anybody else: the allocator has touched addresses at most.
    obtain ⟨r₀, hr₀, hrec⟩ := h.allots.amends.members id r hold
    have hrecord := Ipam.mem_records.mpr ⟨id, hr₀⟩
    refine hsettled.declared r₀ hrecord (fun hname => hid ?_) x (hrec.routes ▸ hx) hdefault
    exact (hfiled.amends h.allots.amends).eq_idFor hold (hrec.name.trans hname)

/-! ### Every step -/

/-- A configuration and records whose LANs and addresses are apart. -/
structure LansKept (cfg : NetworkConfig) (reg : Registry) : Prop where
  checked : cfg.LansChecked
  tunnelled : reg.Tunnelled cfg
  apart : reg.LansApart

theorem LansKept.amends {reg' : Registry} (h : LansKept cfg reg) (ha : reg.Amends reg') : LansKept cfg reg' :=
  ⟨h.checked, h.tunnelled.amends ha, h.apart.amends ha⟩

theorem LansKept.withMark (h : LansKept cfg reg) (hwm : Nat) :
    LansKept cfg { reg with genHwm := hwm } :=
  ⟨h.checked, h.tunnelled, ⟨h.apart.lans, h.apart.addresses⟩⟩

end NetState

def LockedOp.JoinsSettled (ns : NetState) : LockedOp → Prop
  | .join name _ _ _ _ _ _ => ns.LansSettled name
  | _ => True

instance LockedOp.decidableJoinsSettled (ns : NetState) : (op : LockedOp) → Decidable (op.JoinsSettled ns)
  | .join name _ _ _ _ _ _ => inferInstanceAs (Decidable (ns.LansSettled name))
  | .register _ _ _ | .teardown _ _ _ | .heartbeat _ _ _ _ | .exitReadiness _ _ _ | .resync _ _ _
  | .refresh _ _ _ _ | .sweep _ | .flush _ | .admin _ _ _ | .importConfig _ _ _ => isTrue trivial

def HistoryEvent.JoinsSettled (ns : NetState) (e : HistoryEvent) : Prop := ∀ op ∈ e.op, op.JoinsSettled ns

instance HistoryEvent.decidableJoinsSettled (ns : NetState) (e : HistoryEvent) :
    Decidable (e.JoinsSettled ns) :=
  inferInstanceAs (Decidable (∀ op ∈ e.op, op.JoinsSettled ns))

namespace NetState

variable {env : CoordText} {ns ns' : NetState}

theorem proposal_lansKept {r : AdminReading} {op : NetworkOp} {e : Edit NetworkConfig Registry}
    (h : ns.proposal env r op = .ok e) (hlans : LansKept ns.cfg ns.registry) :
    LansKept (e.fst.getD ns.cfg) (e.snd.getD ns.registry) := by
  have hcfg : LansKept (e.fst.getD ns.cfg) ns.registry := by
    cases hfst : e.fst with
    | none => exact hlans
    | some cfg =>
      rcases proposal_config h hfst with ⟨⟨cfg₀, hvalid⟩, hv⟩ | hpares
      · exact ⟨NetworkConfig.lansChecked_of_validated hvalid, .validated hv, hlans.apart⟩
      · exact ⟨hlans.checked.pares hpares, hlans.tunnelled.pares hpares, hlans.apart⟩
  cases hsnd : e.snd with
  | none => exact hcfg
  | some reg => exact hcfg.amends (proposal_amends h hsnd).1

theorem Writes.lansKept {op : LockedOp} {rows : Rows NetworkConfig Registry} (h : ns.Writes env op rows)
    (hsaves : op.Saves) (hsettled : op.JoinsSettled ns) (hfiled : ns.registry.Filed)
    (hlans : LansKept ns.cfg ns.registry) : LansKept rows.fst rows.snd := by
  cases h with
  | same => exact hlans
  | @join name presented req peerIp signing t db plan planned =>
    obtain ⟨granted, reg, relayAddr, hplans⟩ := joinPlan_eq_ok planned
    have hdb : db.registry := hsaves
    rw [hdb]
    have htunnelled := hplans.tunnelled hlans.tunnelled
    refine ⟨hlans.checked, htunnelled, ?_⟩
    exact Registry.lansApart_of_declared hlans.checked hsettled.own
      (fun c hc => hplans.declares hfiled hlans.checked hsettled hc) htunnelled
  | @admin keys r op e proposed =>
    rw [written_of_saves hsaves.1 hsaves.2]
    exact proposal_lansKept proposed hlans
  | @importConfig keys r cfg cfg' validated assigned =>
    have hcfg : LansKept cfg' ns.registry :=
      ⟨NetworkConfig.lansChecked_of_validated validated, .validated assigned, hlans.apart⟩
    exact hcfg.amends (importedRegistry_amends (some ns.cfg) cfg' ns.registry r.clock.now).1

theorem Advances.lansKept {e : HistoryEvent} (h : ns.Advances env e ns') (hsaves : e.Saves)
    (hsettled : e.JoinsSettled ns) (hkept : Kept ns.rows) (hlans : LansKept ns.cfg ns.registry) :
    LansKept ns'.cfg ns'.registry := by
  obtain ⟨rows, hwrote, hcfg, hwm, hreg⟩ := h.writes hsaves hkept
  rw [hcfg, hreg]
  refine LansKept.withMark ?_ hwm
  rcases hwrote with rfl | ⟨op, hop, hwrites⟩
  · exact hlans
  · exact hwrites.lansKept (hsaves op hop) (hsettled op hop) hkept.inOrder.filed hlans

end NetState

end Nqvpn
