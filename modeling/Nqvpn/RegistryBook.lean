import Nqvpn.JoinCases

/-!
# The member records over time

Records are found by node id and by name. Whatever is done to the registry leaves who a
record is for alone: operators and the allocator amend or drop records, and only a join
writes a new one, under the id its name has or an id that is free.
-/

namespace Nqvpn

open Fallible DurableRows Std.ExtTreeMap Option

/-- The same member with the same keys and routes, perhaps without an address and with its
credentials retired. -/
structure MemberRecord.Amends (r r' : MemberRecord) : Prop where
  nodeId : r'.nodeId = r.nodeId
  name : r'.name = r.name
  role : r'.role = r.role
  pubkey : r'.pubkey = r.pubkey
  certFp : r'.certFp = r.certFp
  routes : r'.routes = r.routes
  loginGen : r.loginGen ≤ r'.loginGen
  ip4 : ∀ ip, r'.ip4 = some ip → r.ip4 = some ip
  ip6 : ∀ ip, r'.ip6 = some ip → r.ip6 = some ip

variable (r : MemberRecord)

theorem MemberRecord.Amends.refl : r.Amends r :=
  ⟨rfl, rfl, rfl, rfl, rfl, rfl, le_rfl, fun _ h => h, fun _ h => h⟩

namespace Registry

/-- Records are amended or dropped, nothing else changes. -/
structure Amends (reg reg' : Registry) : Prop where
  networkUuid : reg'.networkUuid = reg.networkUuid
  nextNodeId : reg'.nextNodeId = reg.nextNodeId
  genHwm : reg'.genHwm = reg.genHwm
  size : reg'.members.size ≤ reg.members.size
  members : ∀ (id : NodeId) (r' : MemberRecord), reg'.members[id]? = some r' →
    ∃ r, reg.members[id]? = some r ∧ r.Amends r'

theorem Amends.refl (reg : Registry) : reg.Amends reg :=
  ⟨rfl, rfl, rfl, le_rfl, fun _ r' h => ⟨r', h, .refl r'⟩⟩

variable {reg reg' : Registry} {name : String} {r : MemberRecord} {id : NodeId}
  {members : Std.ExtTreeMap NodeId MemberRecord}

theorem Amends.trans {reg'' : Registry} (h : reg.Amends reg') (h' : reg'.Amends reg'') :
    reg.Amends reg'' := by
  refine ⟨h'.networkUuid.trans h.networkUuid, h'.nextNodeId.trans h.nextNodeId, h'.genHwm.trans h.genHwm,
    h'.size.trans h.size, fun id r'' hr'' => ?_⟩
  obtain ⟨r', hr', ha'⟩ := h'.members id r'' hr''
  obtain ⟨r, hr, ha⟩ := h.members id r' hr'
  exact ⟨r, hr, ha'.nodeId.trans ha.nodeId, ha'.name.trans ha.name, ha'.role.trans ha.role,
    ha'.pubkey.trans ha.pubkey, ha'.certFp.trans ha.certFp, ha'.routes.trans ha.routes,
    ha.loginGen.trans ha'.loginGen,
    fun ip hip => ha.ip4 ip (ha'.ip4 ip hip), fun ip hip => ha.ip6 ip (ha'.ip6 ip hip)⟩

def Retains (reg reg' : Registry) : Prop :=
  ∀ (id : NodeId) (r r' : MemberRecord), reg.members[id]? = some r → reg'.members[id]? = some r' →
    r'.ip4 = r.ip4 ∧ r'.ip6 = r.ip6

/-- Records are filed under their node, and no two have one name. -/
structure Filed (reg : Registry) : Prop where
  keyed : ∀ (id : NodeId) (r : MemberRecord), reg.members[id]? = some r → r.nodeId = id
  named : ∀ (i j : NodeId) (r r' : MemberRecord), reg.members[i]? = some r → reg.members[j]? = some r' →
    r.name = r'.name → i = j

theorem filed_new (uuid : String) : (Registry.new uuid).Filed :=
  ⟨fun id r h => by simp [Registry.new] at h, fun i j r r' h => by simp [Registry.new] at h⟩

theorem Filed.amends (h : reg.Filed) (ha : reg.Amends reg') : reg'.Filed := by
  refine ⟨fun id r' hr' => ?_, fun i j r r' hr hr' hname => ?_⟩
  · obtain ⟨r, hr, hrec⟩ := ha.members id r' hr'
    rw [hrec.nodeId]
    exact h.keyed id r hr
  · obtain ⟨r₀, hr₀, hrec⟩ := ha.members i r hr
    obtain ⟨r₀', hr₀', hrec'⟩ := ha.members j r' hr'
    refine h.named i j r₀ r₀' hr₀ hr₀' ?_
    rw [← hrec.name, ← hrec'.name, hname]

/-! ### Finding a record by name -/

theorem byName_eq_some (h : reg.byName name = some r) :
    (∃ id : NodeId, reg.members[id]? = some r) ∧ r.name = name :=
  ⟨Ipam.mem_records.mp (List.mem_of_find?_eq_some h), by simpa using List.find?_some h⟩

theorem byName_eq_none (h : reg.byName name = none) (hr : reg.members[id]? = some r) : r.name ≠ name := by
  have hall := List.find?_eq_none.mp h r (Ipam.mem_records.mpr ⟨id, hr⟩)
  simpa using hall

theorem Filed.byName_of_name (h : reg.Filed) (hr : reg.members[id]? = some r) : reg.byName r.name = some r := by
  cases hfound : reg.byName r.name with
  | none => exact absurd rfl (byName_eq_none hfound hr)
  | some r' =>
    obtain ⟨⟨id', hr'⟩, hname⟩ := byName_eq_some hfound
    obtain rfl : id' = id := h.named id' id r' r hr' hr hname
    rw [← hr', hr]

theorem Filed.idOf_eq_some (h : reg.Filed) :
    reg.idOf name = some id ↔ ∃ r, reg.members[id]? = some r ∧ r.name = name := by
  constructor
  · intro hid
    obtain ⟨r, hr, hnode⟩ := map_eq_some_iff.mp hid
    obtain ⟨⟨id', hr'⟩, hname⟩ := byName_eq_some hr
    rw [h.keyed id' r hr'] at hnode
    exact ⟨r, hnode ▸ hr', hname⟩
  · rintro ⟨r, hr, rfl⟩
    rw [idOf, h.byName_of_name hr, map_some, h.keyed id r hr]

/-! ### A new id -/

theorem mem_of_freshId_mem {fuel : Nat} (hid : id < 2 ^ 32) (h : freshId members fuel id ∈ members) :
    ∀ i < fuel, (id + i) % 2 ^ 32 ∈ members := by
  induction fuel generalizing id with
  | zero => exact fun i hi => absurd hi (Nat.not_lt_zero i)
  | succ fuel ih =>
    intro i hi
    rw [freshId] at h
    split_ifs at h with hmem
    · cases i with
      | zero => rwa [Nat.add_zero, Nat.mod_eq_of_lt hid]
      | succ i =>
        have hnext := ih (Nat.mod_lt (id + 1) (by decide)) h i (Nat.lt_of_succ_lt_succ hi)
        rwa [Nat.mod_add_mod, Nat.add_assoc, Nat.add_comm 1 i] at hnext
    · exact absurd h hmem

theorem freshId_not_mem (hsize : members.size < 2 ^ 32) (hid : id < 2 ^ 32) :
    freshId members (members.size + 1) id ∉ members := by
  intro h
  have hall := mem_of_freshId_mem hid h
  have hnodup : ((List.range (members.size + 1)).map fun i => (id + i) % 2 ^ 32).Nodup := by
    refine List.Nodup.map_on (fun i hi j hj hij => ?_) List.nodup_range
    have hmod : id + i ≡ id + j [MOD 2 ^ 32] := hij
    exact (Nat.ModEq.add_left_cancel' id hmod).eq_of_lt_of_lt
      ((List.mem_range.mp hi).trans_le hsize) ((List.mem_range.mp hj).trans_le hsize)
  have hsubset : ((List.range (members.size + 1)).map fun i => (id + i) % 2 ^ 32) ⊆ members.keys := by
    intro x hx
    obtain ⟨i, hi, rfl⟩ := List.mem_map.mp hx
    exact mem_keys.mpr (hall i (List.mem_range.mp hi))
  have hlength := (hnodup.subperm hsubset).length_le
  rw [List.length_map, List.length_range, length_keys] at hlength
  omega

def idFor (reg : Registry) (name : String) : NodeId :=
  (reg.idOf name).getD (freshId reg.members (reg.members.size + 1) (max reg.nextNodeId 1))

def recordFor (reg : Registry) (name : String) (role : Role) (now : Nat) : MemberRecord :=
  { (reg.members[reg.idFor name]?).getD (newRecord (reg.idFor name) name role now) with name, role }

theorem memberByNameMut_eq (reg : Registry) (name : String) (role : Role) (now : Nat)
    (edit : MemberRecord → MemberRecord) :
    reg.memberByNameMut name role now edit =
      ({ reg with
         members := reg.members.insert (reg.idFor name) (edit (reg.recordFor name role now))
         nextNodeId := max reg.nextNodeId (min (reg.idFor name + 1) maxNodeId) },
        edit (reg.recordFor name role now)) := rfl

end Registry

/-! ### What each operation makes of the records -/

theorem Ipam.Grant.amends {α : Type} [DecidableEq α] {f : Family α} {cfg : NetworkConfig}
    {reg reg' : Registry} {reclaim : Option Leases} {now : Nat} {member : String} {ip : Option α}
    (hdrop : ∀ r : MemberRecord, r.Amends (f.drop r))
    (h : Grant f cfg reg reclaim now member ip reg') : reg.Amends reg' := by
  obtain ⟨huuid, hnext, hmark, hsize⟩ := h.frame
  refine ⟨huuid, hnext, hmark, hsize.le, fun id r' hr' => ?_⟩
  rcases h.members id with hsame | ⟨_, _, _, r, -, -, hreclaims, -, hlost⟩
  · exact ⟨r', hsame ▸ hr', .refl r'⟩
  · rw [hlost] at hr'
    cases hr'
    exact ⟨r, hreclaims.record, { hdrop r with loginGen := Nat.le_succ r.loginGen }⟩

theorem Ipam.v4_drop_amends : r.Amends (Ipam.v4.drop r) :=
  { MemberRecord.Amends.refl r with ip4 := fun _ hip => by cases hip }

theorem Ipam.v6_drop_amends : r.Amends (Ipam.v6.drop r) :=
  { MemberRecord.Amends.refl r with ip6 := fun _ hip => by cases hip }

namespace NetState

variable {env : CoordText} {ns : NetState} {reg : Registry}

theorem amends_of_members {reg' : Registry} (huuid : reg'.networkUuid = reg.networkUuid)
    (hnext : reg'.nextNodeId = reg.nextNodeId) (hmark : reg'.genHwm = reg.genHwm)
    (hsize : reg'.members.size ≤ reg.members.size)
    (hmembers : ∀ (id : NodeId) (r' : MemberRecord), reg'.members[id]? = some r' →
      ∃ r, reg.members[id]? = some r ∧ r.Amends r' ∧ r'.ip4 = r.ip4 ∧ r'.ip6 = r.ip6) :
    reg.Amends reg' ∧ reg.Retains reg' := by
  refine ⟨⟨huuid, hnext, hmark, hsize, fun id r' hr' => ?_⟩, fun id r r' hr hr' => ?_⟩
  · obtain ⟨r, hr, ha, -⟩ := hmembers id r' hr'
    exact ⟨r, hr, ha⟩
  · obtain ⟨r₀, hr₀, -, hips⟩ := hmembers id r' hr'
    cases hr₀.symm.trans hr
    exact hips

theorem importedRegistry_amends (old : Option NetworkConfig) (cfg : NetworkConfig) (reg : Registry)
    (now : Nat) :
    reg.Amends (importedRegistry old cfg reg now) ∧ reg.Retains (importedRegistry old cfg reg now) := by
  refine amends_of_members rfl rfl rfl size_map.le fun id r' hr' => ?_
  simp only [importedRegistry, getElem?_map] at hr'
  obtain ⟨r, hr, rfl⟩ := map_eq_some_iff.mp hr'
  refine ⟨r, hr, ?_⟩
  split
  · exact ⟨{ MemberRecord.Amends.refl r with loginGen := Nat.le_succ r.loginGen }, rfl, rfl⟩
  · exact ⟨.refl r, rfl, rfl⟩

theorem rotated_amends (r : AdminReading) (ns : NetState) (node : NodeId) :
    ns.registry.Amends (ns.rotated r node) ∧ ns.registry.Retains (ns.rotated r node) := by
  refine amends_of_members rfl rfl rfl size_modify.le fun id r' hr' => ?_
  simp only [rotated, getElem?_modify, compare_eq_iff_eq] at hr'
  split_ifs at hr' with hid
  · obtain ⟨r₀, hr₀, rfl⟩ := map_eq_some_iff.mp hr'
    exact ⟨r₀, hid ▸ hr₀, { MemberRecord.Amends.refl r₀ with loginGen := Nat.le_succ r₀.loginGen }, rfl, rfl⟩
  · exact ⟨r', hr', .refl r', rfl, rfl⟩

theorem proposal_amends {r : AdminReading} {op : NetworkOp} {e : Edit NetworkConfig Registry}
    (h : ns.proposal env r op = .ok e) (hreg : e.snd = some reg) :
    ns.registry.Amends reg ∧ ns.registry.Retains reg := by
  cases proposal_eq_ok h with
  | updateNetwork | createMember | updateMember => cases hreg
  | rotateMember =>
    obtain ⟨node, -, rfl⟩ := map_eq_some_iff.mp hreg
    exact rotated_amends r ns node
  | deleteMember =>
    obtain ⟨node, -, rfl⟩ := map_eq_some_iff.mp hreg
    exact amends_of_members rfl rfl rfl size_erase_le fun id r' hr' =>
      ⟨r', getElem?_erase_imp hr', .refl r', rfl, rfl⟩
  | @setDisabled _ _ node rec_ _ hrec =>
    cases hreg
    refine amends_of_members rfl rfl rfl ?_ fun id r' hr' => ?_
    · have hmem : node ∈ ns.registry.members := by simp [mem_iff_isSome_getElem?, hrec]
      simp [size_insert, hmem]
    · simp only [getElem?_insert, compare_eq_iff_eq] at hr'
      split_ifs at hr' with hid
      · cases hr'
        exact ⟨rec_, hid ▸ hrec, { MemberRecord.Amends.refl rec_ with }, rfl, rfl⟩
      · exact ⟨r', hr', .refl r', rfl, rfl⟩

variable {m : MemberCfg} {granted : Granted} {name : String} {t : Clock}

theorem Allots.amends (h : ns.Allots env name m t granted reg) : ns.registry.Amends reg := by
  obtain ⟨_, _, -, h4, h6⟩ := h.grants
  exact (h4.amends Ipam.v4_drop_amends).trans (h6.amends Ipam.v6_drop_amends)

theorem Allots.kept (h : ns.Allots env name m t granted reg) {id : NodeId} {r : MemberRecord}
    (hr : ns.registry.members[id]? = some r) : ∃ r', reg.members[id]? = some r' ∧ r.Amends r' := by
  have hgrant {α : Type} [DecidableEq α] {f : Ipam.Family α} {reg₀ reg₁ : Registry}
      {reclaim : Option Leases} {ip : Option α} {r₀ : MemberRecord}
      (hg : Ipam.Grant f ns.cfg reg₀ reclaim t.reclaimNow name ip reg₁)
      (hr₀ : reg₀.members[id]? = some r₀) : ∃ r₁, reg₁.members[id]? = some r₁ := by
    rcases hg.members id with hsame | ⟨_, _, _, _, -, -, -, -, hlost⟩
    · exact ⟨r₀, hsame.trans hr₀⟩
    · exact ⟨_, hlost⟩
  obtain ⟨_, _, -, h4, h6⟩ := h.grants
  obtain ⟨r₁, hr₁⟩ := hgrant h4 hr
  obtain ⟨r', hr'⟩ := hgrant h6 hr₁
  obtain ⟨r₀, hr₀, ha⟩ := h.amends.members id r' hr'
  cases hr₀.symm.trans hr
  exact ⟨r', hr', ha⟩

theorem Allots.idOf_eq {name' : String} (h : ns.Allots env name m t granted reg)
    (hfiled : ns.registry.Filed) : reg.idOf name' = ns.registry.idOf name' := by
  refine ext fun id => ?_
  rw [(hfiled.amends h.amends).idOf_eq_some, hfiled.idOf_eq_some]
  constructor
  · rintro ⟨r', hr', rfl⟩
    obtain ⟨r, hr, ha⟩ := h.amends.members id r' hr'
    exact ⟨r, hr, ha.name.symm⟩
  · rintro ⟨r, hr, rfl⟩
    obtain ⟨r', hr', ha⟩ := h.kept hr
    exact ⟨r', hr', ha.name⟩

end NetState

namespace Registry

variable {reg : Registry} {name : String}

theorem recordFor_name (reg : Registry) (name : String) (role : Role) (now : Nat) :
    (reg.recordFor name role now).name = name := rfl

variable {id : NodeId} {r : MemberRecord} {reg' : Registry}

theorem idFor_of_idOf (h : reg.idOf name = some id) : reg.idFor name = id := by
  rw [idFor, h, getD_some]

theorem Filed.recordFor_nodeId (h : reg.Filed) (role : Role) (now : Nat) :
    (reg.recordFor name role now).nodeId = reg.idFor name := by
  unfold recordFor
  cases hr : reg.members[reg.idFor name]? with
  | none => rfl
  | some r => exact h.keyed _ r hr

def Vacant (reg : Registry) (name : String) : Prop :=
  ∀ r, reg.members[reg.idFor name]? = some r → r.name = name

theorem Filed.vacant (h : reg.Filed) (hfresh : reg.idOf name = none → reg.idFor name ∉ reg.members) :
    reg.Vacant name := by
  intro r hr
  cases hid : reg.idOf name with
  | none =>
    have hmem : reg.idFor name ∈ reg.members := by simp [mem_iff_isSome_getElem?, hr]
    exact absurd hmem (hfresh hid)
  | some id =>
    obtain ⟨r', hr', hname⟩ := h.idOf_eq_some.mp hid
    rw [idFor_of_idOf hid, hr'] at hr
    rwa [← some.inj hr]

theorem Filed.vacant_of_room (h : reg.Filed) (hroom : reg.idOf name = none → reg.members.size < 2 ^ 32)
    (hnext : reg.nextNodeId ≤ maxNodeId) : reg.Vacant name := by
  refine h.vacant fun hnone => ?_
  rw [idFor, hnone, getD_none]
  exact freshId_not_mem (hroom hnone) (lt_of_le_of_lt (max_le hnext (by decide)) (by decide : maxNodeId < 2 ^ 32))

theorem Filed.eq_idFor (h : reg.Filed) (hr : reg.members[id]? = some r) (hname : r.name = name) : id = reg.idFor name := by
  rw [idFor_of_idOf (h.idOf_eq_some.mpr ⟨r, hr, hname⟩)]

theorem insert_cases (hreg' : reg'.members = reg.members.insert (reg.idFor name) r) {r' : MemberRecord}
    (hr' : reg'.members[id]? = some r') :
    id = reg.idFor name ∧ r' = r ∨ id ≠ reg.idFor name ∧ reg.members[id]? = some r' := by
  rw [hreg', getElem?_insert] at hr'
  split_ifs at hr' with hid
  · exact .inl ⟨(compare_eq_iff_eq.mp hid).symm, (some.inj hr').symm⟩
  · exact .inr ⟨fun he => hid (compare_eq_iff_eq.mpr he.symm), hr'⟩

theorem Filed.insert (h : reg.Filed) (hid : r.nodeId = reg.idFor name) (hname : r.name = name)
    (hreg' : reg'.members = reg.members.insert (reg.idFor name) r) : reg'.Filed := by
  refine ⟨fun id r' hr' => ?_, fun i j ri rj hri hrj hsame => ?_⟩
  · rcases insert_cases hreg' hr' with ⟨rfl, rfl⟩ | ⟨-, hold⟩
    · exact hid
    · exact h.keyed id r' hold
  · rcases insert_cases hreg' hri with ⟨rfl, rfl⟩ | ⟨hi, hri⟩ <;> rcases insert_cases hreg' hrj with ⟨rfl, rfl⟩ | ⟨hj, hrj⟩
    · rfl
    · exact absurd (h.eq_idFor hrj (hsame ▸ hname)) hj
    · exact absurd (h.eq_idFor hri (hsame.trans hname)) hi
    · exact h.named i j ri rj hri hrj hsame

end Registry

namespace NetState

/-! ### A join -/

/-- What a join writes into its record. -/
structure Signs (req : JoinRequest) (granted : Granted) (replaced : Bool) (role : Role)
    (r r' : MemberRecord) : Prop where
  nodeId : r'.nodeId = r.nodeId
  name : r'.name = r.name
  role : r'.role = role
  pubkey : r'.pubkey = some req.pubkey
  certFp : r'.certFp = some req.certFingerprint
  ip4 : r'.ip4 = granted.ip4
  ip6 : r'.ip6 = granted.ip6
  loginGen : r'.loginGen = if replaced then r.loginGen + 1 else r.loginGen
  disabled : r'.disabled = r.disabled

variable {env : CoordText} {ns : NetState} {name presented : String} {req : JoinRequest} {peerIp : String}
  {t : Clock} {plan : JoinPlan} {granted : Granted} {reg : Registry} {relayAddr : Option String}
  (h : ns.Plans env name presented req peerIp t plan granted reg relayAddr)
include h

theorem Plans.registry_eq : plan.registry =
      { reg with
        members := reg.members.insert (reg.idFor name) plan.record
        nextNodeId := max reg.nextNodeId (min (reg.idFor name + 1) maxNodeId) } := by
  obtain ⟨hregistry, hrecord⟩ := Prod.mk.inj h.written
  rw [hregistry, hrecord]
  rfl

theorem Plans.signs :
    Signs req granted plan.replaced plan.role (reg.recordFor name plan.role t.now) plan.record := by
  have hrecord := h.written
  rw [(Prod.mk.inj hrecord).2]
  cases plan.replaced <;> exact ⟨rfl, rfl, rfl, rfl, rfl, rfl, rfl, rfl, rfl⟩

theorem Plans.members_eq : plan.registry.members = reg.members.insert (reg.idFor name) plan.record :=
  congrArg Registry.members h.registry_eq

theorem Plans.member_cases {id : NodeId} {r : MemberRecord} (hr : plan.registry.members[id]? = some r) :
    id = reg.idFor name ∧ r = plan.record ∨ id ≠ reg.idFor name ∧ reg.members[id]? = some r :=
  Registry.insert_cases h.members_eq hr

theorem Plans.nodeId_eq (hfiled : ns.registry.Filed) : plan.record.nodeId = reg.idFor name :=
  h.signs.nodeId.trans ((hfiled.amends h.allots.amends).recordFor_nodeId plan.role t.now)

theorem Plans.keepsFiled (hfiled : ns.registry.Filed) : plan.registry.Filed :=
  (hfiled.amends h.allots.amends).insert (h.nodeId_eq hfiled) h.signs.name h.members_eq

end NetState

end Nqvpn
