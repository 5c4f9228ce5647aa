import Nqvpn.CredentialIdentity
import Nqvpn.PublishedView

/-!
# The secret behind a credential

A credential does not mention the secret it was obtained with. What ties the two
together is the member's record: whoever replaces a secret bumps the record's login
generation or drops the record, in the same write. The tenure of a network is what that
gives: the credentials its records would still let in were obtained with the secrets its
configuration has.
-/

namespace Nqvpn

open Fallible DurableRows NetworkConfig Std.ExtTreeMap Option

namespace NetworkConfig

def Declares (cfg : NetworkConfig) (name : String) : Prop := (cfg.memberByName name).isSome = true

def secretOf (cfg : NetworkConfig) (name : String) : Option String :=
  ((cfg.memberByName name).bind (·.1.secret)).map trimText

def Upholds (cfg cfg' : NetworkConfig) (name : String) : Prop :=
  cfg'.Declares name ∧ ∀ presented, cfg.secretOf name = some presented → cfg'.secretOf name = some presented

variable {cfg cfg' : NetworkConfig} {name : String}

theorem upholds_of_map_eq (hdeclares : cfg.Declares name)
    (h : (cfg'.memberByName name).map (·.1.secret) = (cfg.memberByName name).map (·.1.secret)) :
    cfg.Upholds cfg' name := by
  obtain ⟨m, hm⟩ := isSome_iff_exists.mp hdeclares
  rw [hm, map_some] at h
  obtain ⟨m', hm', hsecret⟩ := map_eq_some_iff.mp h
  refine ⟨by rw [Declares, hm', isSome_some], fun presented hp => ?_⟩
  rw [← hp, secretOf, secretOf, hm, hm', bind_some, bind_some, hsecret]

theorem Upholds.refl (h : cfg.Declares name) : cfg.Upholds cfg name := ⟨h, fun _ hp => hp⟩

theorem map_secret_truncated (cfg : NetworkConfig) (name : String) :
    (cfg.truncated.memberByName name).map (·.1.secret) = (cfg.memberByName name).map (·.1.secret) := by
  have h := congrArg (Option.map Prod.fst) (memberByName_truncated cfg name)
  rwa [Option.map_map, Option.map_map] at h

theorem memberByName_modifyMember (cfg : NetworkConfig) (name n : String) (f : MemberCfg → MemberCfg) :
    (cfg.modifyMember name f).memberByName n =
      if name = n then (cfg.memberByName n).map fun m => (f m.1, m.2) else cfg.memberByName n := by
  unfold modifyMember
  cases hc : cfg.clients[name]? with
  | some m =>
    simp only [memberByName, getElem?_insert, compare_eq_iff_eq]
    split_ifs with hn
    · rw [← hn, hc]
      rfl
    · rfl
  | none =>
    cases hr : cfg.relays[name]? with
    | some m =>
      simp only [memberByName, getElem?_insert, compare_eq_iff_eq]
      split_ifs with hn
      · rw [← hn, hc, hr]
        rfl
      · rfl
    | none =>
      simp only [memberByName]
      split_ifs with hn
      · rw [← hn, hc, hr]
        rfl
      · rfl

variable {n : String}

theorem memberByName_insertMember_of_ne {role : Role} {m : MemberCfg} (h : name ≠ n) :
    (cfg.insertMember name role m).memberByName n = cfg.memberByName n := by
  cases role <;> simp [insertMember, memberByName, getElem?_insert, h]

theorem memberByName_removeMember_of_ne (h : name ≠ n) :
    (cfg.removeMember name).1.memberByName n = cfg.memberByName n := by
  unfold removeMember
  split_ifs <;> simp [memberByName, getElem?_erase, h]

end NetworkConfig

/-! ### One registry -/

def Registry.DeclaredBy (reg : Registry) (cfg : NetworkConfig) : Prop :=
  ∀ (id : NodeId) (r : MemberRecord), reg.members[id]? = some r → cfg.Declares r.name

/-- The registry answers for the credentials issued in its network, each with the secret
it was obtained with: its members are declared, and a credential that is not behind its
record was obtained with the secret of today. -/
structure Registry.Tenured (reg : Registry) (uuid : String) (cfg : NetworkConfig)
    (mine : List (Claims × String)) : Prop where
  uuid : reg.networkUuid = uuid
  accounts : reg.Accounts (mine.map Prod.fst) (mine.map fun x => (x.1.nodeId, x.1.sub))
  declared : reg.DeclaredBy cfg
  secrets : ∀ x ∈ mine, ∀ r, reg.members[x.1.nodeId]? = some r → r.loginGen ≤ x.1.loginGen →
    cfg.secretOf r.name = some x.2

namespace Registry.Tenured

variable {reg reg' : Registry} {uuid : String} {cfg cfg' : NetworkConfig} {mine : List (Claims × String)}

theorem of_new (uuid : String) (cfg : NetworkConfig) : (Registry.new uuid).Tenured uuid cfg [] where
  uuid := rfl
  accounts := .of_new uuid
  declared id r h := by simp [Registry.new] at h
  secrets x hx := absurd hx List.not_mem_nil

theorem withMark (h : reg.Tenured uuid cfg mine) (hwm : Nat) :
    { reg with genHwm := hwm }.Tenured uuid cfg mine :=
  ⟨h.uuid, h.accounts.withMark hwm, h.declared, h.secrets⟩

/-- The rule every change of the books follows: a record that stays is of a member whose
secret stays, or its credentials are retired. -/
theorem advance (h : reg.Tenured uuid cfg mine) (ha : reg.Amends reg')
    (hstays : ∀ (id : NodeId) (r r' : MemberRecord), reg.members[id]? = some r →
      reg'.members[id]? = some r' →
      cfg.Upholds cfg' r.name ∨ cfg'.Declares r.name ∧ r.loginGen < r'.loginGen) :
    reg'.Tenured uuid cfg' mine := by
  refine ⟨ha.networkUuid.trans h.uuid, h.accounts.amends ha, fun id r' hr' => ?_, fun x hx r' hr' hgen => ?_⟩
  · obtain ⟨r, hr, hrec⟩ := ha.members id r' hr'
    rw [hrec.name]
    exact (hstays id r r' hr hr').elim (fun hupholds => hupholds.1) fun hretired => hretired.1
  · obtain ⟨r, hr, hrec⟩ := ha.members _ r' hr'
    rw [hrec.name]
    rcases hstays _ r r' hr hr' with hupholds | ⟨-, hlt⟩
    · exact hupholds.2 x.2 (h.secrets x hx r hr (hrec.loginGen.trans hgen))
    · have hle := ((h.accounts.issued x.1 (List.mem_map_of_mem hx)).2 r hr).loginGen
      exact absurd (hlt.trans_le hgen) (not_lt.mpr hle)

theorem amends (h : reg.Tenured uuid cfg mine) (ha : reg.Amends reg') : reg'.Tenured uuid cfg mine :=
  h.advance ha fun id r _ hr _ => .inl (.refl (h.declared id r hr))

theorem issue (h : reg.Tenured uuid cfg mine) {c : Claims} {presented : String} {r : MemberRecord}
    (hr : reg.members[c.nodeId]? = some r) (hname : r.name = c.sub) (hgen : r.loginGen = c.loginGen)
    (hpub : r.pubkey = some c.pubkey) (hcert : r.certFp = some c.certFp)
    (hsecret : cfg.secretOf r.name = some presented) : reg.Tenured uuid cfg ((c, presented) :: mine) := by
  have hissued := h.accounts.issue hr hgen hpub hcert
  refine ⟨h.uuid, { hissued with assigned := fun p hp => ?_ }, h.declared, fun x hx r' hr' hle => ?_⟩
  · rcases List.mem_cons.mp hp with rfl | hp
    · refine ⟨(h.accounts.used _ r hr).2, fun r' hr' => ?_⟩
      rw [some.inj (hr'.symm.trans hr), hname]
    · exact h.accounts.assigned p hp
  · rcases List.mem_cons.mp hx with rfl | hx
    · rw [some.inj (hr'.symm.trans hr)]
      exact hsecret
    · exact h.secrets x hx r' hr' hle

end Registry.Tenured

def Registry.Within (reg reg' : Registry) : Prop :=
  ∀ (id : NodeId) (r : MemberRecord), reg.members[id]? = some r →
    ∃ r', reg'.members[id]? = some r' ∧ r'.name = r.name

def LockedOp.traffic : LockedOp → Bool
  | .admin _ _ _ | .importConfig _ _ _ => false
  | _ => true

def NetworkOp.retires : NetworkOp → Option String
  | .rotateMember name _ | .deleteMember name => some name
  | _ => none

def NetworkOp.removes : NetworkOp → Option String
  | .deleteMember name => some name
  | _ => none

namespace NetState

variable {env : CoordText} {ns ns' : NetState} {uuid : String} {mine : List (Claims × String)}

/-! ### A join -/

section Join

variable {name presented : String} {req : JoinRequest} {peerIp : String} {signing : Signing} {t : Clock}
  {db : DbOutcome} {plan : JoinPlan} {granted : Granted} {reg : Registry} {relayAddr : Option String}

theorem Plans.secretOf (h : ns.Plans env name presented req peerIp t plan granted reg relayAddr) :
    ns.cfg.Declares name ∧ ns.cfg.secretOf name = some presented := by
  obtain ⟨hm, hsecret⟩ := filter_eq_some_iff.mp h.authentic
  refine ⟨by rw [NetworkConfig.Declares, hm, isSome_some], ?_⟩
  rw [NetworkConfig.secretOf, hm, bind_some]
  cases hs : plan.member.secret with
  | none => simp [hs] at hsecret
  | some s => simpa [hs] using hsecret

theorem Plans.loginGen_le (h : ns.Plans env name presented req peerIp t plan granted reg relayAddr)
    {r : MemberRecord} (hr : reg.members[reg.idFor name]? = some r) : r.loginGen ≤ plan.record.loginGen := by
  have hgen := h.signs.loginGen
  rw [Registry.recordFor, hr, getD_some] at hgen
  rw [hgen]
  split_ifs
  · exact Nat.le_succ _
  · exact le_rfl

theorem Plans.tenured (h : ns.Plans env name presented req peerIp t plan granted reg relayAddr)
    (ht : ns.registry.Tenured uuid ns.cfg mine)
    (hroom : ns.registry.idOf name = none → ns.registry.nextNodeId < maxNodeId) :
    plan.registry.Tenured uuid ns.cfg mine := by
  have hallotted := ht.amends h.allots.amends
  have hname : plan.record.name = name := h.signs.name
  have huuid : plan.registry.networkUuid = reg.networkUuid := by rw [h.registry_eq]
  refine ⟨huuid.trans hallotted.uuid, h.accounts ht.accounts hroom, fun id r' hr' => ?_,
    fun x hx r' hr' hgen => ?_⟩
  · rcases h.member_cases hr' with ⟨-, rfl⟩ | ⟨-, hr'⟩
    · rw [hname]
      exact h.secretOf.1
    · exact hallotted.declared id r' hr'
  · rcases h.member_cases hr' with ⟨hid, rfl⟩ | ⟨-, hr'⟩
    · -- A credential of this node is of this member: a new one gets a node nobody had.
      cases hold : reg.idOf name with
      | none =>
        have hlt := (hallotted.accounts.issued x.1 (List.mem_map_of_mem hx)).1
        rw [hid, hallotted.accounts.idFor_eq_next hold] at hlt
        exact absurd hlt (lt_irrefl _)
      | some id =>
        obtain ⟨r, hr, hr_name⟩ := hallotted.accounts.filed.idOf_eq_some.mp hold
        rw [← Registry.idFor_of_idOf hold] at hr
        have hsecret := hallotted.secrets x hx r (hid ▸ hr) ((h.loginGen_le hr).trans hgen)
        rw [hname, ← hr_name]
        exact hsecret
    · exact hallotted.secrets x hx r' hr' hgen

end Join

/-! ### Both registries -/

/-- The running registry is tenured under the configuration, and so is the stored one,
which has nobody on record whom the running one has not. -/
structure Tenure (rows : Rows NetworkConfig Registry) (uuid : String) (mine : List (Claims × String)) :
    Prop where
  running : rows.snd.Tenured uuid rows.fst mine
  stored : ∃ reg, rows.storedSnd = some reg ∧ reg.Tenured uuid rows.fst mine ∧ reg.Within rows.snd

variable {rows : Rows NetworkConfig Registry} {name peerIp presented : String} {req : JoinRequest} {t : Clock}
  {op : LockedOp} {signing : Signing} {db : DbOutcome} {c : Claims} {resp : JoinResponse}

theorem Tenure.of_stored (h : rows.snd.Tenured uuid rows.fst mine) (hstored : rows.storedSnd = some rows.snd) : Tenure rows uuid mine :=
  ⟨h, rows.snd, hstored, h, fun _ r hr => ⟨r, hr, rfl⟩⟩

theorem Keeps.tenure (h : Keeps rows ns) (ht : Tenure rows uuid mine) :
    Tenure ns.rows uuid mine := by
  obtain ⟨hwm, hreg⟩ := h.registry
  have hcfg : ns.rows.fst = rows.fst := h.cfg
  have hsnd : ns.rows.snd = { rows.snd with genHwm := hwm } := hreg
  have hrunning : ns.rows.snd.Tenured uuid ns.rows.fst mine := by
    rw [hcfg, hsnd]
    exact ht.running.withMark hwm
  rcases h.storedRegistry with hsame | hnew
  · obtain ⟨reg, hstored, htenured, hwithin⟩ := ht.stored
    refine ⟨hrunning, reg, hsame.trans hstored, hcfg ▸ htenured, ?_⟩
    rw [hsnd]
    exact hwithin
  · exact .of_stored hrunning hnew

theorem Plans.within {plan : JoinPlan} {granted : Granted} {reg : Registry} {relayAddr : Option String}
    (h : ns.Plans env name presented req peerIp t plan granted reg relayAddr)
    (ht : ns.registry.Tenured uuid ns.cfg mine) : ns.registry.Within plan.registry := by
  intro id r hr
  have hallotted := (ht.amends h.allots.amends).accounts
  obtain ⟨r₁, hr₁, ha⟩ := h.allots.kept hr
  rw [h.registry_eq]
  simp only [getElem?_insert, compare_eq_iff_eq]
  split_ifs with hid
  · refine ⟨plan.record, rfl, ?_⟩
    cases hold : reg.idOf name with
    | none =>
      have hlt := (hallotted.used id r₁ hr₁).2
      rw [← hid, hallotted.idFor_eq_next hold] at hlt
      exact absurd hlt (lt_irrefl _)
    | some id' =>
      obtain ⟨r₂, hr₂, hname⟩ := hallotted.filed.idOf_eq_some.mp hold
      rw [Registry.idFor_of_idOf hold] at hid
      subst hid
      cases hr₂.symm.trans hr₁
      rw [show plan.record.name = name from h.signs.name, ← hname, ha.name]
  · exact ⟨r₁, hr₁, ha.name⟩

theorem Writes.tenure (h : ns.Writes env op rows) (hop : op.traffic)
    (hroom : ∀ name ∈ op.joins, ns.registry.idOf name = none → ns.registry.nextNodeId < maxNodeId)
    (ht : Tenure ns.rows uuid mine) : Tenure rows uuid mine := by
  cases h with
  | same => exact ht
  | @join name presented req peerIp signing t db plan planned =>
    obtain ⟨granted, reg, relayAddr, hplans⟩ := joinPlan_eq_ok planned
    have hplanned := hplans.tenured ht.running (hroom name rfl)
    obtain ⟨stored, hstored, htenured, hwithin⟩ := ht.stored
    have hstored : ns.stored.registry = some stored := hstored
    unfold Rows.commit
    split_ifs
    · exact .of_stored hplanned rfl
    · -- The commit failed: the stored registry is read back, or the plan stays.
      simp only [rows, hstored]
      cases db.reload with
      | true => exact .of_stored htenured rfl
      | false =>
        refine ⟨hplanned, stored, rfl, htenured, fun id r hr => ?_⟩
        obtain ⟨r₁, hr₁, hname₁⟩ := hwithin id r hr
        obtain ⟨r₂, hr₂, hname₂⟩ := hplans.within ht.running id r₁ hr₁
        exact ⟨r₂, hr₂, hname₂.trans hname₁⟩
  | admin | importConfig => cases hop

theorem perform_tenure (hop : op.traffic)
    (hroom : ∀ name ∈ op.joins, ns.registry.idOf name = none → ns.registry.nextNodeId < maxNodeId)
    (ht : Tenure ns.rows uuid mine) : Tenure (ns.perform env op).rows uuid mine := by
  obtain ⟨rows, hwrites, hkeeps⟩ := perform_keeps env ns op
  exact hkeeps.tenure (hwrites.tenure hop hroom ht)

theorem join_tenure (hok : (ns.join env name presented req peerIp signing t db).2 = .ok (c, resp))
    (hroom : ns.registry.idOf name = none → ns.registry.nextNodeId < maxNodeId) (ht : Tenure ns.rows uuid mine) :
    c.networkUuid = uuid ∧
      Tenure (ns.join env name presented req peerIp signing t db).1.rows uuid ((c, presented) :: mine) := by
  obtain ⟨plan, hplan, hkeeps, hclaims⟩ := join_keeps hok
  obtain ⟨granted, reg, relayAddr, hplans⟩ := joinPlan_eq_ok hplan
  have hplanned := hplans.tenured ht.running hroom
  obtain ⟨hrecord, hname, hgen, hpub, hcert⟩ := hplans.issues ht.running.accounts.filed hclaims
  have hsecret : ns.cfg.secretOf plan.record.name = some presented := by
    rw [show plan.record.name = name from hplans.signs.name]
    exact hplans.secretOf.2
  have htenure := hkeeps.tenure (.of_stored (hplanned.issue hrecord hname hgen hpub hcert hsecret) rfl)
  refine ⟨?_, htenure⟩
  rw [hclaims]
  exact htenure.running.uuid

/-! ### Operators -/

section Operators

variable {keys : List KeyInfo} {r : AdminReading} {op : NetworkOp} {e : Edit NetworkConfig Registry}

theorem proposed_map_secret {cfg cfg' : NetworkConfig} (h : ns.proposed env r cfg = .ok cfg') (name : String) :
    (cfg'.memberByName name).map (·.1.secret) = (cfg.memberByName name).map (·.1.secret) := by
  simp only [proposed, bind_eq_ok, mapError_eq_ok, pure_eq_ok] at h
  obtain ⟨cfg'', hvalid, ⟨⟩, -, rfl⟩ := h
  rw [(validateNetworkWith_eq_ok hvalid).1]
  exact cfg.map_secret_truncated name

variable {name : String}

theorem proposal_upholds (h : ns.proposal env r op = .ok e) (hdeclares : ns.cfg.Declares name)
    (hop : op.retires ≠ some name) : ns.cfg.Upholds (e.fst.getD ns.cfg) name := by
  cases proposal_eq_ok h with
  | updateNetwork hcfg => exact upholds_of_map_eq hdeclares (proposed_map_secret hcfg name)
  | createMember hnew hcfg =>
    refine upholds_of_map_eq hdeclares ((proposed_map_secret hcfg name).trans ?_)
    rw [memberByName_insertMember_of_ne]
    rintro rfl
    simp [Declares, hnew] at hdeclares
  | updateMember hcfg =>
    refine upholds_of_map_eq hdeclares ((proposed_map_secret hcfg name).trans ?_)
    rw [memberByName_modifyMember]
    split_ifs
    · rw [Option.map_map]
      rfl
    · rfl
  | rotateMember =>
    refine upholds_of_map_eq hdeclares ?_
    rw [getD_some, memberByName_modifyMember, if_neg fun heq => hop (congrArg some heq)]
  | deleteMember =>
    refine upholds_of_map_eq hdeclares ?_
    rw [getD_some, memberByName_removeMember_of_ne fun heq => hop (congrArg some heq)]
  | setDisabled => exact .refl hdeclares

theorem proposal_declares (h : ns.proposal env r op = .ok e) (hdeclares : ns.cfg.Declares name)
    (hop : op.removes ≠ some name) :
    (e.fst.getD ns.cfg).Declares name := by
  by_cases hretires : op.retires = some name
  · cases proposal_eq_ok h with
    | rotateMember =>
      rw [getD_some, Declares, memberByName_modifyMember]
      split_ifs
      · rw [isSome_map]
        exact hdeclares
      · exact hdeclares
    | deleteMember => exact absurd hretires hop
    | updateNetwork | createMember | updateMember | setDisabled => cases hretires
  · exact (proposal_upholds h hdeclares hretires).1

theorem proposal_retires (h : ns.proposal env r op = .ok e) (hfiled : ns.registry.Filed) {id : NodeId}
    {rec_ : MemberRecord} (hrec : ns.registry.members[id]? = some rec_)
    (hop : op.retires = some rec_.name) :
    ∃ reg, e.snd = some reg ∧ ∀ rec', reg.members[id]? = some rec' →
      rec_.loginGen < rec'.loginGen ∧ op.removes ≠ some rec_.name := by
  have hid : ns.registry.idOf rec_.name = some id := hfiled.idOf_eq_some.mpr ⟨rec_, hrec, rfl⟩
  cases proposal_eq_ok h with
  | @rotateMember n =>
    obtain rfl : n = rec_.name := some.inj hop
    refine ⟨ns.rotated r id, by rw [hid, map_some], fun rec' hrec' => ⟨?_, by simp [NetworkOp.removes]⟩⟩
    rw [rotated, getElem?_modify_self, hrec, map_some, some.injEq] at hrec'
    rw [← hrec']
    exact Nat.lt_succ_self _
  | @deleteMember n =>
    obtain rfl : n = rec_.name := some.inj hop
    refine ⟨_, by rw [hid, map_some], fun rec' hrec' => ?_⟩
    rw [getElem?_erase_self] at hrec'
    cases hrec'
  | updateNetwork | createMember | updateMember | setDisabled => cases hop

theorem proposal_tenure (h : ns.proposal env r op = .ok e) (ht : Tenure ns.rows uuid mine) :
    Tenure ⟨e.fst.getD ns.cfg, e.snd.getD ns.registry, e.fst.or ns.stored.config,
      e.snd.or ns.stored.registry⟩ uuid mine := by
  have hrunning : ns.registry.Tenured uuid ns.cfg mine := ht.running
  have hfiled := hrunning.accounts.filed
  cases hsnd : e.snd with
  | some reg =>
    refine .of_stored (hrunning.advance (proposal_amends h hsnd).1 fun id rec_ rec' hrec hrec' => ?_) rfl
    by_cases hop : op.retires = some rec_.name
    · obtain ⟨reg', hreg', hretired⟩ := proposal_retires h hfiled hrec hop
      cases hreg'.symm.trans hsnd
      obtain ⟨hlt, hremoves⟩ := hretired rec' hrec'
      exact .inr ⟨proposal_declares h (hrunning.declared id rec_ hrec) hremoves, hlt⟩
    · exact .inl (proposal_upholds h (hrunning.declared id rec_ hrec) hop)
  | none =>
    -- Only the configuration is written; nobody on record loses a secret by that.
    have hupholds (id : NodeId) (rec_ : MemberRecord) (hrec : ns.registry.members[id]? = some rec_) :
        ns.cfg.Upholds (e.fst.getD ns.cfg) rec_.name := by
      refine proposal_upholds h (hrunning.declared id rec_ hrec) fun hop => ?_
      obtain ⟨reg, hreg, -⟩ := proposal_retires h hfiled hrec hop
      rw [hsnd] at hreg
      cases hreg
    obtain ⟨stored, hstored, htenured, hwithin⟩ := ht.stored
    refine ⟨hrunning.advance (.refl _) fun id rec_ _ hrec _ => .inl (hupholds id rec_ hrec), stored,
      hstored, htenured.advance (.refl _) fun id rec_ _ hrec _ => .inl ?_, hwithin⟩
    obtain ⟨rec', hrec', hname⟩ := hwithin id rec_ hrec
    exact hname ▸ hupholds id rec' hrec'

end Operators

/-! ### The network -/

/-- Books with a tenure, and a view of declared members. -/
structure Honors (ns : NetState) (uuid : String) (mine : List (Claims × String)) : Prop where
  books : Tenure ns.rows uuid mine
  view : ∀ m ∈ ns.directory.published.members, ns.cfg.Declares m.name

theorem Shows.honors {text : IpNetText} (h : ns.Shows text) (ht : Tenure ns.rows uuid mine) :
    ns.Honors uuid mine := by
  refine ⟨ht, fun m hm => ?_⟩
  obtain ⟨keys, h⟩ := h
  rw [h] at hm
  obtain ⟨⟨id, rec_⟩, hrec, rfl⟩ := List.mem_map.mp (KeyedList.mem_of_mem_keepLastSorted hm)
  exact ht.running.declared id rec_
    (mem_toList_iff_getElem?_eq_some.mp (List.mem_of_mem_filter hrec))

theorem Honors.perform (h : ns.Honors uuid mine) (hop : op.traffic)
    (hroom : ∀ name ∈ op.joins, ns.registry.idOf name = none → ns.registry.nextNodeId < maxNodeId) :
    (ns.perform env op).Honors uuid mine := by
  have hbooks : Tenure (ns.perform env op).rows uuid mine := perform_tenure hop hroom h.books
  rcases @perform_views env ns op with hsame | hshows
  · refine ⟨hbooks, fun m hm => ?_⟩
    rw [hsame.published] at hm
    obtain ⟨rows, hwrites, hkeeps⟩ := perform_keeps env ns op
    have hcfg : rows.fst = ns.cfg := by
      cases hwrites with
      | same => rfl
      | join =>
        unfold Rows.commit
        split_ifs
        · rfl
        · split <;> rfl
      | admin | importConfig => cases hop
    rw [hkeeps.cfg, hcfg]
    exact h.view m hm
  · exact hshows.honors hbooks

theorem Honors.join (h : ns.Honors uuid mine)
    (hok : (ns.join env name presented req peerIp signing t db).2 = .ok (c, resp))
    (hroom : ns.registry.idOf name = none → ns.registry.nextNodeId < maxNodeId) :
    c.networkUuid = uuid ∧
      (ns.join env name presented req peerIp signing t db).1.Honors uuid ((c, presented) :: mine) := by
  obtain ⟨huuid, hbooks⟩ := join_tenure hok hroom h.books
  obtain ⟨plan, -, hdone, -⟩ := join_eq_ok hok
  have hshows : (ns.join env name presented req peerIp signing t db).1.Shows env.net := by
    rw [hdone]
    exact publish_shows _ _ _ _ _ _ _
  exact ⟨huuid, hshows.honors hbooks⟩

section Operators

variable {keys : List KeyInfo} {r : AdminReading}

theorem Honors.exec (h : ns.Honors uuid mine) {op : NetworkOp}
    (hok : (ns.exec env keys r op).2 = .ok ()) : (ns.exec env keys r op).1.Honors uuid mine := by
  obtain ⟨e, hproposal, hdone⟩ := exec_eq_ok env keys r hok
  have hbooks := proposal_tenure hproposal h.books
  rw [hdone]
  have hpublished {base : NetState} (hrows : base.rows = ⟨e.fst.getD ns.cfg, e.snd.getD ns.registry,
      e.fst.or ns.stored.config, e.snd.or ns.stored.registry⟩) :
      (base.publishNow env keys r).Honors uuid mine := by
    have hkeeps := publish_keeps (rfl : base.rows = base.rows) env.net env.encode keys r.clock.now
      r.clock.nowMs r.db.mark
    exact (publish_shows _ _ _ _ _ _ _).honors (hkeeps.tenure (hrows ▸ hbooks))
  rcases finish_cases env keys r ns (ns.withRows ⟨e.fst.getD ns.cfg, e.snd.getD ns.registry,
    e.fst.or ns.stored.config, e.snd.or ns.stored.registry⟩) op with hsame | ⟨base, htrims, hpublish⟩
  · cases hop : op.removes with
    | none =>
      rw [hsame]
      refine ⟨hbooks, fun m hm => ?_⟩
      exact proposal_declares hproposal (h.view m hm) (by rw [hop]; simp)
    | some name =>
      -- Whoever drops a declaration publishes.
      cases op with
      | deleteMember n =>
        simp only [finish]
        split
        · exact hpublished (forget_trims _ _ _).rows
        · exact hpublished rfl
      | updateNetwork | createMember | updateMember | rotateMember | setDisabled => cases hop
  · rw [hpublish]
    exact hpublished htrims.rows

variable {cfg : NetworkConfig}

theorem importedRegistry_tenured {reg : Registry} {old : NetworkConfig} (h : reg.Tenured uuid old mine)
    (hdeclared : reg.DeclaredBy cfg) (now : Nat) :
    (importedRegistry (some old) cfg reg now).Tenured uuid cfg mine := by
  refine h.advance (importedRegistry_amends _ _ _ _).1 fun id rec_ rec' hrec hrec' => ?_
  simp only [importedRegistry, getElem?_map, hrec, map_some, some.injEq]
    at hrec'
  have hdeclares := hdeclared id rec_ hrec
  cases hwhy : retiredWhy (some old) cfg rec_ with
  | some why =>
    rw [hwhy] at hrec'
    rw [← hrec']
    exact .inr ⟨hdeclares, Nat.lt_succ_self _⟩
  | none =>
    refine .inl ⟨hdeclares, fun presented hsecret => ?_⟩
    obtain ⟨⟨m, role⟩, hm⟩ := isSome_iff_exists.mp hdeclares
    simp only [secretOf, map_eq_some_iff, bind_eq_some_iff] at hsecret
    obtain ⟨s, ⟨⟨o, orole⟩, ho, hs⟩, rfl⟩ := hsecret
    simp only [retiredWhy, hm, bind_some, ho, any_some] at hwhy
    split_ifs at hwhy with hrole hreplaced
    have hsome : o.secret.isSome := by rw [hs, isSome_some]
    have hsame : o.secret = m.secret := by simpa [hsome] using hreplaced
    rw [secretOf, hm, bind_some, ← hsame, hs, map_some]

theorem Honors.applyImport (h : ns.Honors uuid mine) (hdeclared : ns.registry.DeclaredBy cfg) :
    (ns.applyImport env keys r cfg (importedRegistry (some ns.cfg) cfg ns.registry r.clock.now)).Honors
      uuid mine := by
  have hreg := importedRegistry_tenured h.books.running hdeclared r.clock.now
  obtain ⟨base, htrims, happly⟩ := applyImport_cases env keys r ns cfg
    (importedRegistry (some ns.cfg) cfg ns.registry r.clock.now)
  have hkeeps := publish_keeps htrims.rows env.net env.encode keys r.clock.now r.clock.nowMs r.db.mark
  rw [happly]
  exact (publish_shows _ _ _ _ _ _ _).honors (hkeeps.tenure (.of_stored hreg rfl))

theorem created_honors (cfg : NetworkConfig) (uuid : String) :
    (NetState.created env r cfg (Registry.new uuid)).Honors uuid [] :=
  ⟨.of_stored (.of_new uuid cfg) rfl, fun _ hm => absurd hm List.not_mem_nil⟩

end Operators

end NetState

end Nqvpn
