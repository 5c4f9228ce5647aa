import Nqvpn.NetworkRuns

/-!
# Who holds which address

Addresses are kept apart by three parties that do not know of each other: a change of
the configuration is checked against the addresses handed out, a join against the
other records and reservations, and a reclaim against the leases. What they share is
that the book is in order: no address has two holders, and none is held that is
reserved for somebody else.
-/

namespace Nqvpn

open Fallible DurableRows Ipam Option

namespace NetworkConfig

variable {cfg : NetworkConfig} {m : String × MemberCfg × Role} {name : String} {f : MemberCfg → MemberCfg}

theorem mem_members :
    m ∈ cfg.members ↔ m.2.2 = .client ∧ cfg.clients[m.1]? = some m.2.1 ∨
      m.2.2 = .relay ∧ cfg.relays[m.1]? = some m.2.1 := by
  obtain ⟨name, mc, role⟩ := m
  simp only [members, List.mem_append, List.mem_map, Prod.exists,
    Std.ExtTreeMap.mem_toList_iff_getElem?_eq_some, Prod.mk.injEq]
  constructor
  · rintro (⟨_, _, h, rfl, rfl, rfl⟩ | ⟨_, _, h, rfl, rfl, rfl⟩)
    · exact .inl ⟨rfl, h⟩
    · exact .inr ⟨rfl, h⟩
  · rintro (⟨rfl, h⟩ | ⟨rfl, h⟩)
    · exact .inl ⟨_, _, h, rfl, rfl, rfl⟩
    · exact .inr ⟨_, _, h, rfl, rfl, rfl⟩

theorem mem_members_of_memberByName {m : MemberCfg × Role} (h : cfg.memberByName name = some m) : (name, m) ∈ cfg.members := by
  unfold memberByName at h
  cases hclient : cfg.clients[name]? with
  | some mc =>
    rw [hclient] at h
    cases h
    exact mem_members.mpr (.inl ⟨rfl, hclient⟩)
  | none =>
    rw [hclient] at h
    obtain ⟨mc, hrelay, rfl⟩ := map_eq_some_iff.mp h
    exact mem_members.mpr (.inr ⟨rfl, hrelay⟩)

def Reserves (cfg cfg' : NetworkConfig) : Prop :=
  ∀ m' ∈ cfg'.members, ∃ m ∈ cfg.members, m.1 = m'.1 ∧ m.2.1.preferredIp4 = m'.2.1.preferredIp4 ∧
    m.2.1.preferredIp6 = m'.2.1.preferredIp6

theorem exists_of_getElem?_insert {map : Std.ExtTreeMap String MemberCfg} {n : String} {m m' : MemberCfg}
    (hm : map[name]? = some m) (h : (map.insert name (f m))[n]? = some m') : ∃ m₀, map[n]? = some m₀ ∧ (m' = m₀ ∨ m' = f m₀) := by
  rw [Std.ExtTreeMap.getElem?_insert] at h
  split_ifs at h with hn
  · exact ⟨m, (compare_eq_iff_eq.mp hn) ▸ hm, .inr (some.inj h).symm⟩
  · exact ⟨m', h, .inl rfl⟩

theorem mem_members_modifyMember {m' : String × MemberCfg × Role} (h : m' ∈ (cfg.modifyMember name f).members) :
    ∃ m ∈ cfg.members, m.1 = m'.1 ∧ m.2.2 = m'.2.2 ∧ (m'.2.1 = m.2.1 ∨ m'.2.1 = f m.2.1) := by
  unfold modifyMember at h
  cases hc : cfg.clients[name]? with
  | some m =>
    rw [hc] at h
    rcases mem_members.mp h with ⟨hrole, h⟩ | ⟨hrole, h⟩
    · obtain ⟨m₀, hm₀, heq⟩ := exists_of_getElem?_insert hc h
      exact ⟨(m'.1, m₀, m'.2.2), mem_members.mpr (.inl ⟨hrole, hm₀⟩), rfl, rfl, heq⟩
    · exact ⟨m', mem_members.mpr (.inr ⟨hrole, h⟩), rfl, rfl, .inl rfl⟩
  | none =>
    cases hr : cfg.relays[name]? with
    | some m =>
      rw [hc, hr] at h
      rcases mem_members.mp h with ⟨hrole, h⟩ | ⟨hrole, h⟩
      · exact ⟨m', mem_members.mpr (.inl ⟨hrole, h⟩), rfl, rfl, .inl rfl⟩
      · obtain ⟨m₀, hm₀, heq⟩ := exists_of_getElem?_insert hr h
        exact ⟨(m'.1, m₀, m'.2.2), mem_members.mpr (.inr ⟨hrole, hm₀⟩), rfl, rfl, heq⟩
    | none =>
      rw [hc, hr] at h
      exact ⟨m', h, rfl, rfl, .inl rfl⟩

theorem mem_members_removeMember (h : m ∈ (cfg.removeMember name).1.members) : m ∈ cfg.members := by
  have herase {map : Std.ExtTreeMap String MemberCfg} {n : String} {mc : MemberCfg}
      (hm : (map.erase name)[n]? = some mc) : map[n]? = some mc := by
    rw [Std.ExtTreeMap.getElem?_erase] at hm
    split_ifs at hm
    exact hm
  unfold removeMember at h
  split_ifs at h
  · rcases mem_members.mp h with ⟨hrole, h⟩ | ⟨hrole, h⟩
    · exact mem_members.mpr (.inl ⟨hrole, herase h⟩)
    · exact mem_members.mpr (.inr ⟨hrole, h⟩)
  · rcases mem_members.mp h with ⟨hrole, h⟩ | ⟨hrole, h⟩
    · exact mem_members.mpr (.inl ⟨hrole, h⟩)
    · exact mem_members.mpr (.inr ⟨hrole, herase h⟩)

/-- Members are gone or have another secret; all else is as it was. -/
structure Pares (cfg cfg' : NetworkConfig) : Prop where
  cidrs : cfg'.cidrs = cfg.cidrs
  members : ∀ m' ∈ cfg'.members, ∃ m ∈ cfg.members, m.1 = m'.1 ∧ m.2.2 = m'.2.2 ∧
    ∃ secret, m'.2.1 = { m.2.1 with secret }

theorem modifyMember_pares (cfg : NetworkConfig) (name secret : String) :
    cfg.Pares (cfg.modifyMember name fun m => { m with secret := some secret }) := by
  refine ⟨?_, fun m' hm' => ?_⟩
  · unfold modifyMember
    split
    · rfl
    · split <;> rfl
  · obtain ⟨m, hm, hname, hrole, heq | heq⟩ := mem_members_modifyMember hm'
    · exact ⟨m, hm, hname, hrole, m.2.1.secret, heq⟩
    · exact ⟨m, hm, hname, hrole, some secret, heq⟩

theorem removeMember_pares (cfg : NetworkConfig) (name : String) :
    cfg.Pares (cfg.removeMember name).1 := by
  refine ⟨?_, fun m hm => ⟨m, mem_members_removeMember hm, rfl, rfl, m.2.1.secret, rfl⟩⟩
  unfold removeMember
  split_ifs <;> rfl

theorem Pares.reserves {cfg' : NetworkConfig} (h : cfg.Pares cfg') : cfg.Reserves cfg' := by
  intro m' hm'
  obtain ⟨m, hm, hname, -, secret, heq⟩ := h.members m' hm'
  exact ⟨m, hm, hname, by rw [heq], by rw [heq]⟩

end NetworkConfig

/-! ### A book in order, one family -/

namespace Ipam

/-- What the two families have in common. -/
structure Family.Lawful {α : Type} (f : Family α) : Prop where
  amends : ∀ {r r' : MemberRecord} {ip : α}, r.Amends r' → f.assigned r' = some ip → f.assigned r = some ip
  dropped : ∀ (r : MemberRecord) (n : Nat), f.assigned { f.drop r with loginGen := n } = none
  reserved : ∀ {m m' : MemberCfg}, m.preferredIp4 = m'.preferredIp4 → m.preferredIp6 = m'.preferredIp6 →
    f.configured m = f.configured m'
  /-- Validation looks at both families at once. -/
  listed : ∃ inj : α → IpAddr, (∀ r ip, f.assigned r = some ip → inj ip ∈ r.addresses) ∧
    ∀ m ip, f.configured m = some ip → inj ip ∈ m.addresses

theorem v4_lawful : v4.Lawful where
  amends h hip := h.ip4 _ hip
  dropped _ _ := rfl
  reserved h _ := h
  listed := ⟨.v4, fun r ip h => by simp [MemberRecord.addresses, show r.ip4 = some ip from h],
    fun m ip h => by simp [MemberCfg.addresses, show m.preferredIp4 = some ip from h]⟩

theorem v6_lawful : v6.Lawful where
  amends h hip := h.ip6 _ hip
  dropped _ _ := rfl
  reserved _ h := h
  listed := ⟨.v6, fun r ip h => by simp [MemberRecord.addresses, show r.ip6 = some ip from h],
    fun m ip h => by simp [MemberCfg.addresses, show m.preferredIp6 = some ip from h]⟩

/-- No address has two holders, and none is held that is reserved for another declared
member. -/
structure Booked {α : Type} (f : Family α) (cfg : NetworkConfig) (reg : Registry) : Prop where
  unique : ∀ (i j : NodeId) (r r' : MemberRecord) (ip : α), reg.members[i]? = some r →
    reg.members[j]? = some r' → f.assigned r = some ip → f.assigned r' = some ip → i = j
  reserved : ∀ (id : NodeId) (r : MemberRecord) (ip : α), reg.members[id]? = some r →
    f.assigned r = some ip → ∀ m ∈ cfg.members, f.configured m.2.1 = some ip → m.1 = r.name

variable {α : Type} {f : Family α} {cfg cfg' : NetworkConfig} {reg reg' : Registry}

theorem Booked.amends (h : Booked f cfg reg) (hf : f.Lawful) (ha : reg.Amends reg') :
    Booked f cfg reg' := by
  refine ⟨fun i j r r' ip hr hr' hip hip' => ?_, fun id r ip hr hip m hm hc => ?_⟩
  · obtain ⟨r₀, hr₀, hrec⟩ := ha.members i r hr
    obtain ⟨r₀', hr₀', hrec'⟩ := ha.members j r' hr'
    exact h.unique i j r₀ r₀' ip hr₀ hr₀' (hf.amends hrec hip) (hf.amends hrec' hip')
  · obtain ⟨r₀, hr₀, hrec⟩ := ha.members id r hr
    rw [hrec.name]
    exact h.reserved id r₀ ip hr₀ (hf.amends hrec hip) m hm hc

theorem Booked.reserves (h : Booked f cfg reg) (hf : f.Lawful) (hcfg : cfg.Reserves cfg') :
    Booked f cfg' reg := by
  refine ⟨h.unique, fun id r ip hr hip m' hm' hc => ?_⟩
  obtain ⟨m, hm, hname, h4, h6⟩ := hcfg m' hm'
  rw [← hname]
  exact h.reserved id r ip hr hip m hm ((hf.reserved h4 h6).trans hc)
variable {env : CoordText} {r : MemberRecord} {member : String}

theorem name_of_validateAssignments (hv : validateAssignments env cfg reg = .ok ())
    {m : String × MemberCfg × Role} (hm : m ∈ cfg.members) {ip : IpAddr} (hip : ip ∈ m.2.1.addresses)
    (hr : r ∈ reg.records) (hheld : ip ∈ r.addresses) : r.name = m.1 := by
  simp only [validateAssignments, bind_eq_ok, each_eq_ok] at hv
  obtain ⟨_, -, hv⟩ := hv
  have hnone : reg.records.find? (fun r => decide (r.name ≠ m.1 ∧ ip ∈ r.addresses)) = none := by
    cases hfind : reg.records.find? fun r => decide (r.name ≠ m.1 ∧ ip ∈ r.addresses) with
    | none => rfl
    | some owner =>
      have herr := hv m hm ip hip owner (by rw [hfind]; simp)
      cases herr
  have hother := List.find?_eq_none.mp hnone r hr
  by_contra hname
  exact hother (by simp [hname, hheld])

theorem Booked.validated (h : Booked f cfg reg) (hf : f.Lawful) (hv : validateAssignments env cfg' reg = .ok ()) : Booked f cfg' reg := by
  refine ⟨h.unique, fun id r ip hr hip m hm hc => ?_⟩
  obtain ⟨inj, hassigned, hconfigured⟩ := hf.listed
  exact (name_of_validateAssignments hv hm (hconfigured _ _ hc) (mem_records.mpr ⟨id, hr⟩)
    (hassigned r ip hip)).symm

theorem Free.amends {ip : α} (h : Free f cfg reg member ip) (hf : f.Lawful) (ha : reg.Amends reg') : Free f cfg reg' member ip := by
  refine ⟨fun id r' hr' hname hip => ?_, h.unreserved⟩
  obtain ⟨r, hr, hrec⟩ := ha.members id r' hr'
  exact h.unassigned id r hr (hrec.name ▸ hname) (hf.amends hrec hip)

theorem Grant.free [DecidableEq α] {reclaim : Option Leases} {now : Nat} {ip : α}
    (h : Grant f cfg reg reclaim now member (some ip) reg') (hf : f.Lawful) (hb : Booked f cfg reg) :
    Free f cfg reg' member ip := by
  cases h with
  | wanted free => exact free
  | fresh cursor free => exact ⟨free.unassigned, free.unreserved⟩
  | @kept _ id r record own assigned =>
    refine ⟨fun id' r' hr' hname hip => hname ?_, fun m hm hname hc => hname ?_⟩
    · obtain rfl : id' = id := hb.unique id' id r' r ip hr' record hip assigned
      rw [some.inj (hr'.symm.trans record), own]
    · rw [hb.reserved id r ip record assigned m hm hc, own]
  | @reclaimed _ victim _ r _ _ from_ soft =>
    refine ⟨fun id r' hr' hname hip => ?_, fun m hm _ hc => ?_⟩
    · -- The only holder was the victim, and it holds nothing now.
      simp only [retire, Std.ExtTreeMap.getElem?_modify, compare_eq_iff_eq] at hr'
      split_ifs at hr' with hid
      · obtain ⟨r₀, -, rfl⟩ := map_eq_some_iff.mp hr'
        rw [hf.dropped] at hip
        cases hip
      · exact hid (hb.unique victim id r r' ip from_.record hr' from_.assigned hip)
    · have hsoft := List.any_eq_false.mp soft m hm
      simp [hc] at hsoft

theorem Booked.insert {name : String} (h : Booked f cfg reg) (hfiled : reg.Filed) (hname : r.name = name)
    (hfree : ∀ ip, f.assigned r = some ip → Free f cfg reg name ip)
    (hreg' : reg'.members = reg.members.insert (reg.idFor name) r) : Booked f cfg reg' := by
  have hother {id : NodeId} {r' : MemberRecord} {ip : α} (hid : id ≠ reg.idFor name)
      (hr' : reg.members[id]? = some r') (hip : f.assigned r = some ip) : f.assigned r' ≠ some ip :=
    (hfree ip hip).unassigned id r' hr' fun hsame => hid (hfiled.eq_idFor hr' hsame)
  refine ⟨fun i j ri rj ip hri hrj hipi hipj => ?_, fun id r' ip hr' hip m hm hc => ?_⟩
  · rcases Registry.insert_cases hreg' hri with ⟨rfl, rfl⟩ | ⟨hi, hri⟩ <;>
      rcases Registry.insert_cases hreg' hrj with ⟨rfl, rfl⟩ | ⟨hj, hrj⟩
    · rfl
    · exact absurd hipj (hother hj hrj hipi)
    · exact absurd hipi (hother hi hri hipj)
    · exact h.unique i j ri rj ip hri hrj hipi hipj
  · rcases Registry.insert_cases hreg' hr' with ⟨rfl, rfl⟩ | ⟨-, hold⟩
    · by_contra hm'
      exact (hfree ip hip).unreserved m hm (hname ▸ hm') hc
    · exact h.reserved id r' ip hold hip m hm hc

end Ipam

/-! ### Both families, and the records -/

/-- The records are filed, and their addresses booked. -/
structure Registry.InOrder (cfg : NetworkConfig) (reg : Registry) : Prop where
  filed : reg.Filed
  next : reg.nextNodeId ≤ maxNodeId
  booked4 : Booked v4 cfg reg
  booked6 : Booked v6 cfg reg

namespace Registry.InOrder

variable {cfg cfg' : NetworkConfig} {reg reg' : Registry}

theorem of_new (cfg : NetworkConfig) (uuid : String) : InOrder cfg (Registry.new uuid) := by
  refine ⟨filed_new uuid, (by decide : 1 ≤ maxNodeId), ?_, ?_⟩
  all_goals
    refine ⟨fun i j r r' ip hr => ?_, fun id r ip hr => ?_⟩
    all_goals simp [Registry.new] at hr

theorem amends (h : reg.InOrder cfg) (ha : reg.Amends reg') : reg'.InOrder cfg :=
  ⟨h.filed.amends ha, ha.nextNodeId.trans_le h.next, h.booked4.amends v4_lawful ha,
    h.booked6.amends v6_lawful ha⟩

theorem withMark (h : reg.InOrder cfg) (hwm : Nat) : { reg with genHwm := hwm }.InOrder cfg :=
  ⟨⟨h.filed.keyed, h.filed.named⟩, h.next, ⟨h.booked4.unique, h.booked4.reserved⟩,
    ⟨h.booked6.unique, h.booked6.reserved⟩⟩

theorem reserves (h : reg.InOrder cfg) (hcfg : cfg.Reserves cfg') : reg.InOrder cfg' :=
  ⟨h.filed, h.next, h.booked4.reserves v4_lawful hcfg, h.booked6.reserves v6_lawful hcfg⟩

theorem validated {env : CoordText} (h : reg.InOrder cfg) (hv : validateAssignments env cfg' reg = .ok ()) :
    reg.InOrder cfg' :=
  ⟨h.filed, h.next, h.booked4.validated v4_lawful hv, h.booked6.validated v6_lawful hv⟩

end Registry.InOrder

namespace NetState

variable {env : CoordText} {ns : NetState}
variable {name : String} {m : MemberCfg} {t : Clock} {granted : Granted} {reg : Registry} {r : AdminReading}
  {op : NetworkOp} {e : Edit NetworkConfig Registry} {id : NodeId}

theorem Allots.free (h : ns.Allots env name m t granted reg) (hb4 : Booked v4 ns.cfg ns.registry)
    (hb6 : Booked v6 ns.cfg ns.registry) :
    (∀ ip, granted.ip4 = some ip → Free v4 ns.cfg reg name ip) ∧
      ∀ ip, granted.ip6 = some ip → Free v6 ns.cfg reg name ip := by
  obtain ⟨_, reg₁, -, h4, h6⟩ := h.grants
  refine ⟨fun ip hip => ?_, fun ip hip => ?_⟩
  · rw [hip] at h4
    exact (h4.free v4_lawful hb4).amends v4_lawful (h6.amends v6_drop_amends)
  · rw [hip] at h6
    exact h6.free v6_lawful (hb6.amends v6_lawful (h4.amends v4_drop_amends))

theorem Plans.inOrder {presented : String} {req : JoinRequest} {peerIp : String} {plan : JoinPlan}
    {relayAddr : Option String} (h : ns.Plans env name presented req peerIp t plan granted reg relayAddr)
    (hreg : ns.registry.InOrder ns.cfg) : plan.registry.InOrder ns.cfg := by
  have hamended := hreg.amends h.allots.amends
  obtain ⟨hfree4, hfree6⟩ := h.allots.free hreg.booked4 hreg.booked6
  have hname : plan.record.name = name := h.signs.name
  refine ⟨h.keepsFiled hreg.filed, ?_,
    hamended.booked4.insert hamended.filed hname (fun ip hip => hfree4 ip (h.signs.ip4 ▸ hip)) h.members_eq,
    hamended.booked6.insert hamended.filed hname (fun ip hip => hfree6 ip (h.signs.ip6 ▸ hip)) h.members_eq⟩
  rw [h.registry_eq]
  exact max_le hamended.next (min_le_right _ _)

theorem proposal_config (h : ns.proposal env r op = .ok e) {cfg : NetworkConfig} (hcfg : e.fst = some cfg) :
    (∃ cfg₀, validateNetworkWith env r.resolve cfg₀ = .ok cfg) ∧
        validateAssignments env cfg ns.registry = .ok () ∨ ns.cfg.Pares cfg := by
  cases proposal_eq_ok h with
  | updateNetwork hnew | createMember _ hnew | updateMember hnew =>
    simp only [proposed, bind_eq_ok, pure_eq_ok, mapError_eq_ok] at hnew
    obtain ⟨cfg', hvalid, _, hv, rfl⟩ := hnew
    cases hcfg
    exact .inl ⟨⟨_, hvalid⟩, hv⟩
  | rotateMember =>
    cases hcfg
    exact .inr (ns.cfg.modifyMember_pares ..)
  | deleteMember =>
    cases hcfg
    exact .inr (ns.cfg.removeMember_pares _)
  | setDisabled => cases hcfg

theorem proposal_inOrder (h : ns.proposal env r op = .ok e) (hreg : ns.registry.InOrder ns.cfg) :
    (e.snd.getD ns.registry).InOrder (e.fst.getD ns.cfg) := by
  have hcfg : ns.registry.InOrder (e.fst.getD ns.cfg) := by
    cases hfst : e.fst with
    | none => exact hreg
    | some cfg =>
      rcases proposal_config h hfst with ⟨-, hv⟩ | hpares
      · exact hreg.validated hv
      · exact hreg.reserves hpares.reserves
  cases hsnd : e.snd with
  | none => exact hcfg
  | some reg => exact hcfg.amends (proposal_amends h hsnd).1

/-! ### Losing an address -/

/-- A member that can lose an address of a family: a client, offline, attached to no relay,
and the address is static for nobody. -/
structure Abandoned {α : Type} (f : Family α) (ns : NetState) (id : NodeId) (r : MemberRecord)
    (ip : α) : Prop where
  client : r.role = .client
  offline : ns.leases.isOnline id = false
  unattached : id ∉ ns.leases.attachments
  dynamic : ∀ m ∈ ns.cfg.members, f.configured m.2.1 ≠ some ip

theorem abandoned_of_reclaims {α : Type} [DecidableEq α] {f : Family α} {now : Nat} {member : String}
    {eligible : α → Bool} {ip : α} {r : MemberRecord}
    (h : Reclaims ns.cfg reg ns.leases now member f.assigned eligible id ip r)
    (hsoft : isHard ns.cfg f.configured ip = false) : ns.Abandoned f id r ip := by
  have habandoned := h.abandoned
  simp only [abandoned, Bool.and_eq_true, decide_eq_true_eq, Bool.not_eq_true', beq_iff_eq] at habandoned
  obtain ⟨⟨⟨⟨⟨-, hclient⟩, hoffline⟩, hunattached⟩, -⟩, -⟩ := habandoned
  exact ⟨hclient, hoffline, hunattached, fun m hm hc => by
    have := List.any_eq_false.mp hsoft m hm
    simp [hc] at this⟩

theorem Allots.loses (h : ns.Allots env name m t granted reg) {r r' : MemberRecord}
    (hr : ns.registry.members[id]? = some r) (hr' : reg.members[id]? = some r') :
    (∀ ip, r.ip4 = some ip → r'.ip4 ≠ some ip → ns.Abandoned v4 id r ip) ∧
      ∀ ip, r.ip6 = some ip → r'.ip6 ≠ some ip → ns.Abandoned v6 id r ip := by
  obtain ⟨reclaim, reg₁, hleases, h4, h6⟩ := h.grants
  -- The IPv4 grant first, then the IPv6 one on what it left.
  obtain ⟨r₁, hr₁, hlost4, hrole, hsame6⟩ : ∃ r₁, reg₁.members[id]? = some r₁ ∧
      (∀ ip, r.ip4 = some ip → r₁.ip4 ≠ some ip → ns.Abandoned v4 id r ip) ∧
      r₁.role = r.role ∧ r₁.ip6 = r.ip6 := by
    rcases h4.members id with hsame | ⟨leases, _, ip', r₀, hreclaim, -, hreclaims, hsoft, hlost⟩
    · exact ⟨r, hsame.trans hr, fun ip hip hne => absurd hip hne, rfl, rfl⟩
    · cases hreclaims.record.symm.trans hr
      obtain rfl := hleases leases hreclaim
      refine ⟨_, hlost, fun ip hip _ => ?_, rfl, rfl⟩
      cases hreclaims.assigned.symm.trans hip
      exact abandoned_of_reclaims hreclaims hsoft
  rcases h6.members id with hsame | ⟨leases, _, ip', r₀, hreclaim, -, hreclaims, hsoft, hlost⟩
  · cases hr'.symm.trans (hsame.trans hr₁)
    exact ⟨hlost4, fun ip hip hne => absurd (hsame6.trans hip) hne⟩
  · cases hreclaims.record.symm.trans hr₁
    obtain rfl := hleases leases hreclaim
    rw [hlost] at hr'
    cases hr'
    refine ⟨hlost4, fun ip hip _ => ?_⟩
    cases hreclaims.assigned.symm.trans (hsame6.trans hip)
    have habandoned : ns.Abandoned v6 id _ _ := abandoned_of_reclaims hreclaims hsoft
    exact ⟨hrole ▸ habandoned.client, habandoned.offline, habandoned.unattached, habandoned.dynamic⟩

end NetState

/-! ### Whole runs -/

def LockedOp.Saves : LockedOp → Prop
  | .join _ _ _ _ _ _ db => db.registry = true
  | .admin _ r _ => r.db.config = true ∧ r.db.registry = true
  | _ => True

instance LockedOp.decidableSaves : (op : LockedOp) → Decidable op.Saves
  | .join _ _ _ _ _ _ db => inferInstanceAs (Decidable (db.registry = true))
  | .admin _ r _ => inferInstanceAs (Decidable (r.db.config = true ∧ r.db.registry = true))
  | .register _ _ _ | .teardown _ _ _ | .heartbeat _ _ _ _ | .exitReadiness _ _ _ | .resync _ _ _
  | .refresh _ _ _ _ | .sweep _ | .flush _ | .importConfig _ _ _ => isTrue trivial

def HistoryEvent.Saves (e : HistoryEvent) : Prop := ∀ op ∈ e.op, op.Saves

instance HistoryEvent.decidableSaves (e : HistoryEvent) : Decidable e.Saves :=
  inferInstanceAs (Decidable (∀ op ∈ e.op, op.Saves))

namespace NetState

variable {env : CoordText} {ns ns' : NetState}

/-- The book is in order, and stored as it is. -/
structure Kept (rows : Rows NetworkConfig Registry) : Prop where
  inOrder : rows.snd.InOrder rows.fst
  storedFst : rows.storedFst = some rows.fst
  storedSnd : ∃ hwm, rows.storedSnd = some { rows.snd with genHwm := hwm }

/-- Other than by joining, a member that stays on record loses an address only if it may be
reclaimed. -/
def ReclaimsAbandoned (ns : NetState) (op : Option LockedOp) (reg : Registry) : Prop :=
  ∀ (id : NodeId) (r r' : MemberRecord), ns.registry.members[id]? = some r →
    reg.members[id]? = some r' → op.bind LockedOp.joins ≠ some r.name →
    (∀ ip, r.ip4 = some ip → r'.ip4 ≠ some ip → ns.Abandoned v4 id r ip) ∧
      ∀ ip, r.ip6 = some ip → r'.ip6 ≠ some ip → ns.Abandoned v6 id r ip

variable {op : Option LockedOp} {reg : Registry} {rows : Rows NetworkConfig Registry} {e : HistoryEvent}

theorem reclaimsAbandoned_of_retains (h : ns.registry.Retains reg) : ns.ReclaimsAbandoned op reg := by
  intro id r r' hr hr' _
  obtain ⟨h4, h6⟩ := h id r r' hr hr'
  exact ⟨fun ip hip hne => absurd (h4.trans hip) hne, fun ip hip hne => absurd (h6.trans hip) hne⟩

theorem retains_of_members (h : reg.members = ns.registry.members) :
    ns.registry.Retains reg := by
  intro id r r' hr hr'
  rw [h, hr] at hr'
  cases hr'
  exact ⟨rfl, rfl⟩

theorem Plans.reclaimsAbandoned {name presented : String} {req : JoinRequest} {peerIp : String}
    {signing : Signing} {t : Clock} {db : DbOutcome} {plan : JoinPlan} {granted : Granted}
    {relayAddr : Option String} (h : ns.Plans env name presented req peerIp t plan granted reg relayAddr)
    (hreg : ns.registry.InOrder ns.cfg)
    (hreturns : (LockedOp.join name presented req peerIp signing t db).Returns ns) :
    ns.ReclaimsAbandoned (some (.join name presented req peerIp signing t db)) plan.registry := by
  intro id r r' hr hr' hother
  have hname : r.name ≠ name := fun hn => hother (by rw [hn]; rfl)
  have hamends := h.allots.amends
  have hfiled := hreg.filed.amends hamends
  rcases h.member_cases hr' with ⟨hid, -⟩ | ⟨-, hr'⟩
  · -- The joining member's own id is no other member's.
    obtain ⟨r₁, hr₁, ha⟩ := h.allots.kept hr
    have hvacant : reg.Vacant name := by
      refine hfiled.vacant_of_room (fun hnone => ?_) (hamends.nextNodeId.trans_le hreg.next)
      rw [h.allots.idOf_eq hreg.filed] at hnone
      exact lt_of_le_of_lt hamends.size (hreturns hnone)
    exact absurd (ha.name.symm.trans (hvacant r₁ (hid ▸ hr₁))) hname
  · exact h.allots.loses hr hr'

theorem written_of_saves {r : AdminReading} {e : Edit NetworkConfig Registry} (hconfig : r.db.config)
    (hregistry : r.db.registry) :
    (ns.written r e).1 = ⟨e.fst.getD ns.cfg, e.snd.getD ns.registry, e.fst.or ns.stored.config,
      e.snd.or ns.stored.registry⟩ := by
  have hok : (ns.written r e).2 := by
    unfold written
    rw [hconfig, hregistry]
    cases e with
    | mk fst snd => cases fst <;> cases snd <;> rfl
  exact Rows.write_ok hok

theorem Writes.kept {op : LockedOp} (h : ns.Writes env op rows) (hsaves : op.Saves) (hreturns : op.Returns ns)
    (hkept : Kept ns.rows) :
    Kept rows ∧ ns.ReclaimsAbandoned (some op) rows.snd := by
  cases h with
  | same => exact ⟨hkept, reclaimsAbandoned_of_retains (retains_of_members rfl)⟩
  | @join name presented req peerIp signing t db plan planned =>
    obtain ⟨granted, reg, relayAddr, hplans⟩ := joinPlan_eq_ok planned
    have hdb : db.registry := hsaves
    rw [hdb]
    exact ⟨⟨hplans.inOrder hkept.inOrder, hkept.storedFst, ⟨_, rfl⟩⟩,
      hplans.reclaimsAbandoned hkept.inOrder hreturns⟩
  | @admin keys r op e proposed =>
    rw [written_of_saves hsaves.1 hsaves.2]
    refine ⟨⟨proposal_inOrder proposed hkept.inOrder, ?_, ?_⟩, ?_⟩
    · cases e.fst with
      | none => exact hkept.storedFst
      | some cfg => rfl
    · cases e.snd with
      | none => exact hkept.storedSnd
      | some reg => exact ⟨reg.genHwm, rfl⟩
    · refine reclaimsAbandoned_of_retains ?_
      cases hsnd : e.snd with
      | none => exact retains_of_members rfl
      | some reg => exact (proposal_amends proposed hsnd).2
  | @importConfig keys r cfg cfg' validated assigned =>
    obtain ⟨hamends, hretains⟩ := importedRegistry_amends (some ns.cfg) cfg' ns.registry r.clock.now
    exact ⟨⟨(hkept.inOrder.validated assigned).amends hamends, rfl, ⟨_, rfl⟩⟩,
      reclaimsAbandoned_of_retains hretains⟩

theorem Keeps.kept (h : Keeps rows ns) (hkept : Kept rows) :
    Kept ns.rows := by
  obtain ⟨hwm, hreg⟩ := h.registry
  refine ⟨?_, ?_, ?_⟩
  · change ns.registry.InOrder ns.cfg
    rw [hreg, h.cfg]
    exact hkept.inOrder.withMark hwm
  · change ns.stored.config = some ns.cfg
    rw [h.storedConfig, h.cfg]
    exact hkept.storedFst
  · change ∃ hwm, ns.stored.registry = some { ns.registry with genHwm := hwm }
    rcases h.storedRegistry with hsame | hstored
    · obtain ⟨hwm', hsnd⟩ := hkept.storedSnd
      exact ⟨hwm', by rw [hsame, hsnd, hreg]⟩
    · exact ⟨_, hstored⟩

theorem Leaves.kept (h : ns.Leaves env op ns') (hsaves : ∀ o ∈ op, o.Saves) (hkept : Kept ns.rows) : Kept ns'.rows ∧ ns.ReclaimsAbandoned op ns'.registry := by
  cases h with
  | nothing => exact ⟨hkept, reclaimsAbandoned_of_retains (retains_of_members rfl)⟩
  | @done op rows returns writes keeps =>
    obtain ⟨hrows, hreclaims⟩ := writes.kept (hsaves op rfl) returns hkept
    refine ⟨keeps.kept hrows, ?_⟩
    obtain ⟨hwm, hreg⟩ := keeps.registry
    rw [hreg]
    exact hreclaims

theorem Advances.kept (h : ns.Advances env e ns') (hsaves : e.Saves) (hkept : Kept ns.rows) : Kept ns'.rows ∧ ns.ReclaimsAbandoned e.op ns'.registry := by
  cases h with
  | perform leaves => exact leaves.kept hsaves hkept
  | @crash during uuid now nowMs ns₁ cfg leaves config =>
    obtain ⟨hleft, hreclaims⟩ := leaves.kept hsaves hkept
    obtain ⟨hwm, hstored⟩ := hleft.storedSnd
    have hcfg : cfg = ns₁.cfg := some.inj (config.symm.trans hleft.storedFst)
    have hreg : ns₁.stored.registry.getD (Registry.new uuid) = { ns₁.registry with genHwm := hwm } := by
      rw [show ns₁.stored.registry = _ from hstored, getD_some]
      rfl
    refine ⟨⟨?_, config, ⟨hwm, ?_⟩⟩, ?_⟩
    · rw [hreg, hcfg]
      exact hleft.inOrder.withMark hwm
    · rw [hreg]
      exact hstored
    · rw [hreg]
      exact hreclaims

theorem Advances.writes (h : ns.Advances env e ns') (hsaves : e.Saves) (hkept : Kept ns.rows) :
    ∃ rows, (rows = ns.rows ∨ ∃ op ∈ e.op, ns.Writes env op rows) ∧ ns'.cfg = rows.fst ∧
      ∃ hwm, ns'.registry = { rows.snd with genHwm := hwm } := by
  have hleft {op : Option LockedOp} {ns₁ : NetState} (hl : ns.Leaves env op ns₁) :
      ∃ rows, (rows = ns.rows ∨ ∃ o ∈ op, ns.Writes env o rows) ∧ ns₁.cfg = rows.fst ∧
        ∃ hwm, ns₁.registry = { rows.snd with genHwm := hwm } := by
    cases hl with
    | nothing => exact ⟨ns.rows, .inl rfl, rfl, ns.registry.genHwm, rfl⟩
    | @done op rows returns writes keeps =>
      exact ⟨rows, .inr ⟨op, rfl, writes⟩, keeps.cfg, keeps.registry⟩
  cases h with
  | perform leaves => exact hleft leaves
  | @crash during uuid now nowMs ns₁ cfg leaves config =>
    -- What the new process reads is what the old one had.
    obtain ⟨rows, hwrote, hcfg, hwm, hreg⟩ := hleft leaves
    have hstored := (leaves.kept hsaves hkept).1
    obtain ⟨hwm', hstoredReg⟩ := hstored.storedSnd
    refine ⟨rows, hwrote, (some.inj (config.symm.trans hstored.storedFst)).trans hcfg, hwm', ?_⟩
    change ns₁.stored.registry.getD (Registry.new uuid) = _
    rw [show ns₁.stored.registry = some { ns₁.registry with genHwm := hwm' } from hstoredReg,
      getD_some, hreg]

theorem created_kept (r : AdminReading) (cfg : NetworkConfig) (uuid : String) :
    Kept (NetState.created env r cfg (Registry.new uuid)).rows :=
  ⟨Registry.InOrder.of_new cfg uuid, rfl, ⟨_, rfl⟩⟩

/-- However joins, edits, imports, deletes and restarts follow each other, no address has
two holders, none is held that is reserved for another member, and one is taken back only
from a client that is gone. -/
theorem addresses_unique
    (h : (networkSystem env).ReachableWith (fun _ e => e.Saves) ns) :
    Booked v4 ns.cfg ns.registry ∧ Booked v6 ns.cfg ns.registry ∧
      ∀ e ns', e.Saves → (networkSystem env).step ns e = some ns' →
        ns.ReclaimsAbandoned e.op ns'.registry := by
  have hkept : Kept ns.rows := by
    refine h.invariant (P := fun ns => Kept ns.rows) ?_ ?_
    · rintro _ ⟨r, cfg, uuid, rfl⟩
      exact created_kept r cfg uuid
    · intro ns e ns' hkept hsaves hstep
      exact ((advance_eq_some hstep).kept hsaves hkept).1
  refine ⟨hkept.inOrder.booked4, hkept.inOrder.booked6, fun e ns' hsaves hstep => ?_⟩
  exact ((advance_eq_some hstep).kept hsaves hkept).2

/-- The second client gets the only address, which the first one had. -/
theorem addresses_unique_reclaimed : ∃ ns,
    (networkSystem .byteText).run NetworkExample.start
        [.perform (NetworkExample.join "ann" "a1" "k" 50), .perform (NetworkExample.join "bob" "b1" "l" 100)] =
      some ns ∧
      (ns.registry.records.map fun r => (r.name, r.ip4)) = [("ann", none), ("bob", some 0x0a000001#32)] ∧
      Booked v4 ns.cfg ns.registry := by
  have hholders : ((networkSystem .byteText).run NetworkExample.start
      [.perform (NetworkExample.join "ann" "a1" "k" 50),
        .perform (NetworkExample.join "bob" "b1" "l" 100)]).map
      (fun ns => ns.registry.records.map fun r => (r.name, r.ip4)) =
        some [("ann", none), ("bob", some 0x0a000001#32)] := by
    decide +kernel
  obtain ⟨ns, hrun, hholders⟩ := map_eq_some_iff.mp hholders
  refine ⟨ns, hrun, hholders, (@addresses_unique .byteText ns ?_).1⟩
  refine TransitionSystem.ReachableWith.of_run (.initial NetworkExample.start_initial) ?_ hrun
  rintro e he _ op hop
  simp only [List.mem_cons, List.not_mem_nil, or_false] at he
  rcases he with rfl | rfl <;> cases hop <;> rfl

end NetState

end Nqvpn
