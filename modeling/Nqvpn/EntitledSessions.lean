import Nqvpn.ControlPlane
import Nqvpn.RegistryBook

/-!
# Registered sessions and the records they rest on

Whoever takes a member's right to be connected closes its session under the same lock:
a disable, a delete, a new secret, an import, a join that replaces it. An address is only
reclaimed from members that are offline, and a member with a session is not. What is left
is a credential that was checked under the lock before, and is used under it later.
-/

namespace Nqvpn

open Fallible DurableRows Std.ExtTreeMap Option

namespace Leases

theorem isOnline_seen (l : Leases) (node n : NodeId) (now : Nat) :
    (l.seen node now).1.isOnline n = (decide (node = n) || l.isOnline n) := by
  have hlast : (l.seen node now).1.lastSeen = l.lastSeen.insert node now := by
    unfold seen
    simp only
    split_ifs <;> rfl
  rw [isOnline, hlast, contains_insert]
  by_cases hn : node = n
  · simp [hn]
  · simp [hn, isOnline]

theorem isOnline_heartbeat (l : Leases) (node n : NodeId) (role : Role) (hb : Heartbeat) (now : Nat)
    (isClient : NodeId → Bool) (maxAttached : Nat) :
    (l.heartbeat node role hb now isClient maxAttached).1.isOnline n =
      (decide (node = n) || l.isOnline n) := by
  rw [← isOnline_seen l node n now]
  cases role <;> rfl

end Leases

namespace NetState

variable {env : CoordText} {ns ns' base : NetState}

/-- Every registered session is of an enabled member on record, and of no login older than
the record's. -/
def Entitled (ns : NetState) : Prop :=
  ∀ (n : NodeId) (s : Session), ns.sessions[n]? = some s →
    ∃ r, ns.registry.members[n]? = some r ∧ r.disabled = false ∧ r.loginGen ≤ s.loginGen

/-- What keeps it so: a member with a session is online. -/
structure Guarded (ns : NetState) : Prop where
  filed : ns.registry.Filed
  entitled : ns.Entitled
  online : ∀ (n : NodeId) (s : Session), ns.sessions[n]? = some s → ns.leases.isOnline n = true

theorem closeSession_sessions (ns : NetState) (node : NodeId) (reason : String) :
    (ns.closeSession node reason).sessions = ns.sessions.erase node := by
  rw [closeSession, closeSessionWith, dropSession_eq]

variable {c : Claims} {req : JoinRequest} {name presented peerIp : String} {reg : Registry} {t : Clock}
  {granted : Granted} {n : NodeId} {leases : Leases}

theorem Trims.closed (h : ns.Trims ns') (hn : ns.sessions[n]? = none) : ns'.sessions[n]? = none := by
  cases hs : ns'.sessions[n]? with
  | none => rfl
  | some s =>
    have hsome := h.sessions n s hs
    rw [hn] at hsome
    cases hsome

theorem foldl_closeSession_closed (ns : NetState) {l : List (NodeId × String)} {x : NodeId × String}
    (hx : x ∈ l) : (l.foldl (fun ns x => ns.closeSession x.1 x.2) ns).sessions[x.1]? = none := by
  obtain ⟨retired, hfold⟩ := foldl_drop_eq Prod.fst (fun x s => s.shut x.2 closeEvicted x.2) l ns
  change (l.foldl (fun ns x => ns.dropSession x.1 fun s => s.shut x.2 closeEvicted x.2)
    ns).sessions[x.1]? = none
  rw [hfold, getElem?_without, if_pos (List.mem_map_of_mem hx)]

theorem applyImport_closes {keys : List KeyInfo} {r : AdminReading} (ns : NetState) (cfg : NetworkConfig) (reg : Registry) :
    ∃ base, (ns.withRows ⟨cfg, reg, some cfg, some reg⟩).Trims base ∧
      ns.applyImport env keys r cfg reg = base.publishNow env keys r ∧
      ∀ x ∈ ns.importRetires cfg reg, base.sessions[x.1]? = none := by
  refine ⟨_, ?_, rfl, fun x hx => ?_⟩
  · refine ((hold_trims _ cfg.settings.holdDownSecs).trans (foldl_closeSession_trims _
      (ns.importRetires cfg reg))).trans ?_
    split_ifs
    · exact reconfigureAll_trims _ _
    · exact reconfigureNamed_trims _ _ _
  · split_ifs
    · exact (reconfigureAll_trims _ _).closed (foldl_closeSession_closed _ hx)
    · exact (reconfigureNamed_trims _ _ _).closed (foldl_closeSession_closed _ hx)

theorem Allots.members_of_online {m : MemberCfg} (h : ns.Allots env name m t granted reg)
    (hn : ns.leases.isOnline n) : reg.members[n]? = ns.registry.members[n]? := by
  have hgrant {α : Type} [DecidableEq α] {f : Ipam.Family α} {reg₀ reg₁ : Registry}
      {reclaim : Option Leases} {ip : Option α} (hleases : ∀ leases, reclaim = some leases → leases = ns.leases)
      (hg : Ipam.Grant f ns.cfg reg₀ reclaim t.reclaimNow name ip reg₁) :
      reg₁.members[n]? = reg₀.members[n]? := by
    rcases hg.members n with hsame | ⟨leases, _, _, _, hreclaim, -, hreclaims, -, -⟩
    · exact hsame
    · obtain rfl := hleases leases hreclaim
      have habandoned := hreclaims.abandoned
      simp [Ipam.abandoned, hn] at habandoned
  obtain ⟨reclaim, reg₁, hleases, h4, h6⟩ := h.grants
  exact (hgrant hleases h6).trans (hgrant hleases h4)

theorem vouches_eq_true (h : ns.vouches c) :
    ∃ r, ns.registry.members[c.nodeId]? = some r ∧ r.disabled = false ∧ r.loginGen ≤ c.loginGen := by
  simp only [vouches, Bool.and_eq_true, any_eq_true, decide_eq_true_eq, Bool.not_eq_true'] at h
  obtain ⟨-, r, hr, ⟨-, hdisabled⟩, hgen⟩ := h
  exact ⟨r, hr, hdisabled, hgen⟩

variable (h : ns.Guarded)

include h

theorem Guarded.republishes (hr : ns.Republishes ns') : ns'.Guarded := by
  obtain ⟨hwm, hreg⟩ := hr.registry
  refine ⟨hreg ▸ ⟨h.filed.keyed, h.filed.named⟩, fun n s hs => ?_, fun n s hs => ?_⟩
  · obtain ⟨s₀, hs₀, hident⟩ := hr.session hs
    obtain ⟨r, hrec, hdisabled, hgen⟩ := h.entitled n s₀ hs₀
    have hlogin : s₀.loginGen = s.loginGen := congrArg Session.Ident.loginGen hident
    exact ⟨r, hr.members ▸ hrec, hdisabled, hlogin ▸ hgen⟩
  · obtain ⟨s₀, hs₀, -⟩ := hr.session hs
    rw [hr.leases]
    exact h.online n s₀ hs₀

theorem Guarded.publish (text : IpNetText) (encode : Snapshot → List UInt8)
    (keys : List KeyInfo) (now nowMs : Nat) (saveOk : Bool) :
    (ns.publish text encode keys now nowMs saveOk).Guarded :=
  h.republishes (publish_republishes text encode keys now nowMs saveOk ns)

variable {rows : Rows NetworkConfig Registry}

theorem Guarded.withRows (hfiled : rows.snd.Filed)
    (htrims : (ns.withRows rows).Trims base)
    (hkept : ∀ (n : NodeId) (s : Session) (r : MemberRecord), base.sessions[n]? = some s →
      ns.registry.members[n]? = some r → r.disabled = false → r.loginGen ≤ s.loginGen →
      ∃ r', rows.snd.members[n]? = some r' ∧ r'.disabled = false ∧ r'.loginGen ≤ s.loginGen) :
    base.Guarded := by
  have hreg : base.registry = rows.snd := htrims.registry
  refine ⟨hreg ▸ hfiled, fun n s hs => ?_, fun n s hs => ?_⟩
  · obtain ⟨r, hr, hdisabled, hgen⟩ := h.entitled n s (htrims.sessions n s hs)
    rw [hreg]
    exact hkept n s r hs hr hdisabled hgen
  · exact htrims.online n s hs (h.online n s (htrims.sessions n s hs))

theorem Guarded.trims (htrims : ns.Trims base) : base.Guarded :=
  @withRows ns base h ns.rows h.filed htrims fun _ _ r _ hr hdisabled hgen => ⟨r, hr, hdisabled, hgen⟩

theorem Guarded.withoutNode (node : NodeId)
    (hfiled : rows.snd.Filed) (htrims : (ns.withRows rows).Trims base)
    (hothers : ∀ n, n ≠ node → rows.snd.members[n]? = ns.registry.members[n]?)
    (hclosed : base.sessions[node]? = none) : base.Guarded := by
  refine h.withRows hfiled htrims fun n s r hs hr hdisabled hgen => ?_
  have hn : n ≠ node := by
    rintro rfl
    rw [hclosed] at hs
    cases hs
  exact ⟨r, (hothers n hn).trans hr, hdisabled, hgen⟩

/-! ### Operators -/

section Operators

variable {keys : List KeyInfo} {r : AdminReading} {rows : Rows NetworkConfig Registry}

theorem Guarded.finish (hsnd : rows.snd = ns.registry)
    (op : NetworkOp) : (ns.finish env keys r (ns.withRows rows) op).Guarded := by
  have hdone : (ns.withRows rows).Guarded :=
    h.withRows (hsnd ▸ h.filed) (Trims.refl _) fun n s r _ hr hdisabled hgen =>
      ⟨r, hsnd ▸ hr, hdisabled, hgen⟩
  rcases finish_cases env keys r ns (ns.withRows rows) op with hfinish | ⟨base, htrims, hfinish⟩
  · rw [hfinish]
    exact hdone
  · rw [hfinish]
    exact (hdone.trims htrims).publish _ _ _ _ _ _

variable {node : NodeId}

theorem Guarded.rotateMember {secret : String} (hnode : ns.registry.idOf name = some node)
    (hsnd : rows.snd = ns.rotated r node) :
    (ns.finish env keys r (ns.withRows rows) (.rotateMember name secret)).Guarded := by
  simp only [NetState.finish, hnode]
  refine Guarded.publish (h.withoutNode node ?_ (dropSession_trims _ _ _) (fun n hn => ?_) ?_) _ _ _ _ _ _
  · rw [hsnd]
    exact h.filed.amends (rotated_amends r ns node).1
  · simp [hsnd, rotated, getElem?_modify, Ne.symm hn]
  · rw [dropSession_eq]
    exact getElem?_erase_self

theorem Guarded.deleteMember (hnode : ns.registry.idOf name = some node) (hfiled : rows.snd.Filed)
    (hsnd : rows.snd = { ns.registry with members := ns.registry.members.erase node }) :
    (ns.finish env keys r (ns.withRows rows) (.deleteMember name)).Guarded := by
  simp only [NetState.finish, hnode]
  refine Guarded.publish (h.withoutNode node hfiled (forget_trims _ _ _) (fun n hn => ?_) ?_) _ _ _ _ _ _
  · simp [hsnd, getElem?_erase, Ne.symm hn]
  · rw [forget, closeSession_sessions]
    exact getElem?_erase_self

theorem Guarded.setDisabled {disabled : Bool} {rec_ : MemberRecord}
    (hnode : ns.registry.idOf name = some node) (hrec : ns.registry.members[node]? = some rec_)
    (hfiled : rows.snd.Filed)
    (hsnd : rows.snd = { ns.registry with members := ns.registry.members.insert node { rec_ with disabled } }) :
    (ns.finish env keys r (ns.withRows rows) (.setDisabled name disabled)).Guarded := by
  simp only [NetState.finish, hnode]
  refine Guarded.publish ?_ _ _ _ _ _ _
  have hothers (n : NodeId) (hn : n ≠ node) : rows.snd.members[n]? = ns.registry.members[n]? := by
    simp [hsnd, getElem?_insert, Ne.symm hn]
  cases disabled with
  | true =>
    refine h.withoutNode node hfiled (evict_trims _ _ _) hothers ?_
    rw [evict, closeSession_sessions]
    exact getElem?_erase_self
  | false =>
    refine h.withRows hfiled (Trims.refl _) fun n s r' hs hr' hdisabled hgen => ?_
    by_cases hn : n = node
    · subst hn
      cases hrec.symm.trans hr'
      exact ⟨{ rec_ with disabled := false }, by simp [hsnd], rfl, hgen⟩
    · exact ⟨r', (hothers n hn).trans hr', hdisabled, hgen⟩

theorem Guarded.exec {op : NetworkOp} (hok : (ns.exec env keys r op).2 = .ok ()) :
    (ns.exec env keys r op).1.Guarded := by
  obtain ⟨e, he, hdone⟩ := exec_eq_ok env keys r hok
  rw [hdone]
  have hamended (reg : Registry) (hreg : e.snd = some reg) : reg.Filed :=
    h.filed.amends (proposal_amends he hreg).1
  cases hsnd : e.snd with
  | none => exact h.finish rfl op
  | some reg =>
    have hfiled := hamended reg hsnd
    cases proposal_eq_ok he with
    | updateNetwork | createMember | updateMember => cases hsnd
    | rotateMember =>
      obtain ⟨node, hnode, rfl⟩ := map_eq_some_iff.mp hsnd
      exact h.rotateMember hnode rfl
    | deleteMember =>
      obtain ⟨node, hnode, rfl⟩ := map_eq_some_iff.mp hsnd
      exact h.deleteMember hnode hfiled rfl
    | setDisabled hnode hrec =>
      cases hsnd
      exact h.setDisabled hnode hrec hfiled rfl

theorem Guarded.importNetwork {cfg : NetworkConfig} :
    (ns.importNetwork env keys r cfg).1.Guarded := by
  simp only [NetState.importNetwork]
  split
  · exact h
  · rename_i cfg' _
    obtain ⟨base, htrims, happly, hclosed⟩ := applyImport_closes ns cfg'
      (importedRegistry (some ns.cfg) cfg' ns.registry r.clock.now)
    rw [happly]
    have hamends := (importedRegistry_amends (some ns.cfg) cfg' ns.registry r.clock.now).1
    refine Guarded.publish (h.withRows (h.filed.amends hamends) htrims fun n s r₀ hs hr₀ hdisabled hgen => ?_)
      _ _ _ _ _ _
    obtain ⟨r', hr', hdisabled', hcases⟩ : ∃ r',
        (importedRegistry (some ns.cfg) cfg' ns.registry r.clock.now).members[n]? = some r' ∧
          r'.disabled = r₀.disabled ∧ (r'.loginGen = r₀.loginGen ∨ r₀.loginGen < r'.loginGen) := by
      simp only [importedRegistry, getElem?_map, hr₀, map_some]
      split
      · exact ⟨_, rfl, rfl, .inr (Nat.lt_succ_self _)⟩
      · exact ⟨_, rfl, rfl, .inl rfl⟩
    refine ⟨r', hr', hdisabled'.trans hdisabled, ?_⟩
    rcases hcases with heq | hlt
    · exact heq ▸ hgen
    · -- A retired credential's session is among those closed.
      have hnode : r'.nodeId = n := (h.filed.amends hamends).keyed n r' hr'
      have hmem : (n, "credential retired by import") ∈ ns.importRetires cfg'
          (importedRegistry (some ns.cfg) cfg' ns.registry r.clock.now) := by
        refine List.mem_filterMap.mpr ⟨r', Ipam.mem_records.mpr ⟨n, hr'⟩, ?_⟩
        simp [hnode, hr₀, hlt]
      rw [hclosed _ hmem] at hs
      cases hs

end Operators

/-! ### Joins -/

theorem Guarded.closeStale {plan : JoinPlan} {relayAddr : Option String}
    (hplans : ns.Plans env name presented req peerIp t plan granted reg relayAddr) :
    ((ns.withRows ⟨ns.cfg, plan.registry, ns.stored.config, some plan.registry⟩).closeStale plan name
      peerIp).Guarded := by
  have hnode := hplans.nodeId_eq h.filed
  refine h.withRows (hplans.keepsFiled h.filed) (closeStale_trims _ plan name peerIp)
    fun n s r hs hr hdisabled hgen => ?_
  have hs₀ := (closeStale_trims _ plan name peerIp).sessions n s hs
  have hsame := (hplans.allots.members_of_online (h.online n s hs₀)).trans hr
  by_cases hn : n = reg.idFor name
  · subst hn
    -- The joining member's own session: stale if the join replaces it.
    have hrecord : reg.recordFor name plan.role t.now = { r with name, role := plan.role } := by
      rw [Registry.recordFor, hsame, getD_some]
    have hsigns := hplans.signs
    rw [hrecord] at hsigns
    refine ⟨plan.record, by rw [hplans.members_eq]; exact getElem?_insert_self,
      hsigns.disabled.trans hdisabled, ?_⟩
    cases hrep : plan.replaced with
    | false =>
      have hlogin := hsigns.loginGen
      rw [hrep, if_neg Bool.false_ne_true] at hlogin
      exact hlogin ▸ hgen
    | true =>
      by_contra hstale
      have hopen : ((ns.withRows ⟨ns.cfg, plan.registry, ns.stored.config,
          some plan.registry⟩).sessions[plan.record.nodeId]?).any (·.loginGen < plan.record.loginGen) := by
        rw [hnode, hs₀]
        simpa using hstale
      rw [NetState.closeStale, hrep, hopen, Bool.and_self, if_pos rfl, closeSessionWith, dropSession_eq,
        hnode] at hs
      simp at hs
  · exact ⟨r, by rw [hplans.members_eq, getElem?_insert,
      if_neg (fun he => hn (compare_eq_iff_eq.mp he).symm)]; exact hsame, hdisabled, hgen⟩

theorem Guarded.join {signing : Signing} {db : DbOutcome} {resp : JoinResponse}
    (hok : (ns.join env name presented req peerIp signing t db).2 = .ok (c, resp)) :
    (ns.join env name presented req peerIp signing t db).1.Guarded := by
  obtain ⟨plan, hplan, hdone, -⟩ := join_eq_ok hok
  obtain ⟨granted, reg, relayAddr, hplans⟩ := joinPlan_eq_ok hplan
  rw [hdone]
  exact (h.closeStale hplans).publish _ _ _ _ _ _

/-! ### Control traffic -/

theorem Guarded.of_leases {directory : Directory} (hon : ∀ n, ns.leases.isOnline n → leases.isOnline n) :
    { ns with leases, directory }.Guarded :=
  ⟨h.filed, h.entitled, fun n s hs => hon n (h.online n s hs)⟩

theorem Guarded.heartbeat (node : NodeId) (role : Role) (hb : Heartbeat)
    (p : Publishing) : (ns.perform env (.heartbeat node role hb p)).Guarded := by
  have hfold : (ns.foldHeartbeat node role hb p.now p.nowMs).1.Guarded := by
    refine h.of_leases fun n hn => ?_
    rw [Leases.isOnline_heartbeat, hn, Bool.or_true]
  exact hfold.republishes
    (onHeartbeat_republishes env.net env.encode p.keys p.now p.nowMs p.saveOk ns node role hb)

theorem Guarded.teardown (node : NodeId) (id : Nat) (p : Publishing) :
    (ns.perform env (.teardown node id p)).Guarded := by
  change (ns.teardown env.net env.encode node id p.keys p.now p.nowMs p.saveOk).Guarded
  rcases teardown_cases env.net env.encode ns node id p.keys p.now p.nowMs p.saveOk with
    hsame | ⟨retired, hpublish⟩
  · rw [hsame]
    exact h
  · rw [hpublish]
    exact (h.trims (teardown_trims ns node retired)).publish _ _ _ _ _ _

theorem Guarded.insert (hc : ns.vouches c) {sessions : Std.ExtTreeMap NodeId Session}
    (hsessions : ∀ (n : NodeId) (s : Session), sessions[n]? = some s →
      n = c.nodeId ∧ s.loginGen = c.loginGen ∨ ns.sessions[n]? = some s)
    (hon : ∀ n, n = c.nodeId ∨ ns.leases.isOnline n → leases.isOnline n) :
    { ns with sessions, leases }.Guarded := by
  refine ⟨h.filed, fun n s hs => ?_, fun n s hs => ?_⟩
  · rcases hsessions n s hs with ⟨rfl, hlogin⟩ | hold
    · rw [hlogin]
      exact vouches_eq_true hc
    · exact h.entitled n s hold
  · rcases hsessions n s hs with ⟨hn, -⟩ | hold
    · exact hon n (.inl hn)
    · exact hon n (.inr (h.online n s hold))

theorem Guarded.register {k : Conn} (hc : ns.vouches k.claims) (id haveGen : Nat)
    (p : Publishing) : (ns.perform env (.register (k.session id) haveGen p)).Guarded := by
  refine Guarded.republishes ?_
    (register_republishes env.net env.encode ns (k.session id) haveGen p.keys p.now p.nowMs p.saveOk)
  refine h.insert hc (fun n s hs => ?_) fun n hn => ?_
  · rw [getElem?_insert] at hs
    split_ifs at hs with hn
    · cases hs
      exact .inl ⟨(compare_eq_iff_eq.mp hn).symm, rfl⟩
    · exact .inr hs
  · rw [Leases.isOnline_seen]
    rcases hn with rfl | hn
    · simp [Conn.session]
    · rw [hn, Bool.or_true]

theorem Guarded.refresh (hc : ns.vouches c) (nowMs : Nat) :
    (ns.perform env (.refresh c.nodeId c.exp c.loginGen nowMs)).Guarded := by
  refine h.insert hc (fun n s hs => ?_) fun n hn => ?_
  · rw [getElem?_alter] at hs
    split_ifs at hs with hn
    · obtain ⟨s₀, -, rfl⟩ := map_eq_some_iff.mp hs
      exact .inl ⟨(compare_eq_iff_eq.mp hn).symm, rfl⟩
    · exact .inr hs
  · rw [Leases.isOnline_seen]
    rcases hn with rfl | hn
    · simp
    · rw [hn, Bool.or_true]

end NetState

/-- The operation returns `Ok`. -/
def LockedOp.Succeeds (env : CoordText) (ns : NetState) : LockedOp → Prop
  | .join name presented req peerIp signing t db =>
    ∃ x, (ns.join env name presented req peerIp signing t db).2 = .ok x
  | .admin keys r op => (ns.exec env keys r op).2 = .ok ()
  | .importConfig keys r cfg => (ns.importNetwork env keys r cfg).2 = .ok ()
  | _ => True

theorem NetState.Guarded.outside {env : CoordText} {ns : NetState} {op : LockedOp} (h : ns.Guarded)
    (hop : op.outside) (hok : op.Succeeds env ns) : (ns.perform env op).Guarded := by
  cases op with
  | join name presented req peerIp signing t db =>
    obtain ⟨⟨c, resp⟩, hok⟩ := hok
    exact h.join hok
  | sweep p => exact (h.trims (swept_trims ns p.now p.nowMs)).publish _ _ _ _ _ _
  | flush p => exact h.republishes (flush_republishes env.net env.encode p.keys p.now p.nowMs p.saveOk ns)
  | admin keys r op => exact h.exec hok
  | importConfig keys r cfg => exact h.importNetwork
  | register | teardown | heartbeat | exitReadiness | resync | refresh => cases hop

/-! ### Whole runs -/

def Conn.Rechecks (k : Conn) (ns : NetState) : ConnEvent → Prop
  | .register _ _ => ns.vouches k.claims = true
  | .renew _ => ∀ c, k.stage = .renewing c → ns.vouches c = true
  | _ => True

namespace Control

variable {env : CoordText} {s s' : Control}

/-- Operations return `Ok`, and between the check of a credential and its use nothing
happens that the check would not pass. -/
def Rechecks (env : CoordText) (s : Control) : ControlEvent → Prop
  | .outside op => op.Succeeds env s.net
  | .hello _ _ => True
  | .conn id e => ∀ k, s.conns[id]? = some k → k.Rechecks s.net e

/-- A renewal is for the node of its connection. -/
structure Guarded (s : Control) : Prop where
  net : s.net.Guarded
  renewals : ∀ (id : Nat) (k : Conn) (c : Claims), s.conns[id]? = some k → k.stage = .renewing c →
    c.nodeId = k.node

theorem advance_guarded {k k' : Conn} {id : Nat} {ns : NetState} {e : ConnEvent} {op : Option LockedOp}
    (h : ns.Guarded) (hrenewal : ∀ c, k.stage = .renewing c → c.nodeId = k.node)
    (hchecked : k.Rechecks ns e) (hadvance : k.advance id ns e = some (k', op)) :
    (op.elim ns (ns.perform env)).Guarded ∧ ∀ c, k'.stage = .renewing c → c.nodeId = k'.node := by
  have hadvances := Conn.advances_of_advance hadvance
  cases hadvances with
  | register stage =>
    have hvouches : ns.vouches k.claims := by
      cases e with
      | register haveGen p => exact hchecked
      | _ => simp [Conn.advance, stage] at hadvance
    exact ⟨h.register hvouches _ _ _, fun c hc => by cases hc⟩
  | quiet registered claims limits reports stage =>
    refine ⟨h, fun c hc => ?_⟩
    have hnode : k'.node = k.node := congrArg Claims.nodeId claims
    rw [hnode]
    rcases stage with hsame | hleaving | ⟨c', hrenewing, -, hident⟩
    · exact hrenewal c (hsame.symm.trans hc)
    · rw [hleaving] at hc
      cases hc
    · rw [hrenewing] at hc
      cases hc
      simp only [Conn.sameIdentity, Bool.and_eq_true, decide_eq_true_eq] at hident
      exact hident.1.1.2
  | heartbeat stage =>
    exact ⟨h.heartbeat _ _ _ _, fun c hc => absurd (stage.symm.trans hc) (by simp)⟩
  | exitReadiness stage role =>
    refine ⟨NetState.Guarded.republishes ?_ (NetState.onExitReadiness_republishes _ _ _ _ _ _ ns _ _),
      fun c hc => absurd (stage.symm.trans hc) (by simp)⟩
    exact h.of_leases fun n hn => hn
  | resync stage =>
    exact ⟨h.republishes (NetState.onResync_delivers _ ns _ _).republishes,
      fun c hc => absurd (stage.symm.trans hc) (by simp)⟩
  | @renew c nowMs stage =>
    have hvouches : ns.vouches c := by
      cases e with
      | renew nowMs => exact hchecked c stage
      | _ => simp [Conn.advance, stage] at hadvance
    have hnode : c.nodeId = k.claims.nodeId := hrenewal c stage
    have hrefresh := @NetState.Guarded.refresh env ns c h hvouches nowMs
    rw [hnode] at hrefresh
    exact ⟨hrefresh, fun c hc => by cases hc⟩
  | finish stage => exact ⟨h.teardown _ _ _, fun c hc => by cases hc⟩

theorem step_guarded {e : ControlEvent} (h : s.Guarded) (hchecked : s.Rechecks env e)
    (hstep : s.step env e = some s') : s'.Guarded := by
  cases e with
  | outside op =>
    simp only [step] at hstep
    split_ifs at hstep with hop
    cases hstep
    exact ⟨h.net.outside hop hchecked, h.renewals⟩
  | hello id c =>
    simp only [step] at hstep
    split_ifs at hstep
    cases hstep
    refine ⟨h.net, fun id' k c' hk hstage => ?_⟩
    rw [getElem?_insert] at hk
    split_ifs at hk
    · cases hk
      cases hstage
    · exact h.renewals id' k c' hk hstage
  | conn id e =>
    obtain ⟨k, k', op, hk, hadvance, rfl⟩ := step_conn_eq_some.mp hstep
    obtain ⟨hnet, hrenewal⟩ := @advance_guarded env _ _ _ _ _ _ h.net (fun c => h.renewals id k c hk)
      (hchecked k hk) hadvance
    refine ⟨hnet, fun id' k₁ c' hk₁ hstage => ?_⟩
    rw [getElem?_insert] at hk₁
    split_ifs at hk₁
    · cases hk₁
      exact hrenewal c' hstage
    · exact h.renewals id' k₁ c' hk₁ hstage

end Control

/-- Connections to a process that has read a registry in which records are filed under
their node. -/
def filedSystem (env : CoordText) : TransitionSystem Control ControlEvent where
  Initial s := (controlSystem env).Initial s ∧ s.net.registry.Filed
  step := Control.step env

namespace Control

variable {env : CoordText} {s : Control}

/-- While every credential would still pass its check when it is used, and operations return
`Ok`, registered sessions are entitled. -/
theorem sessions_entitled (h : (filedSystem env).ReachableWith (Rechecks env) s) : s.net.Entitled := by
  have hguarded : s.Guarded := by
    refine h.invariant (P := Guarded) (fun s hs => ?_) fun s e s' hs hchecked hstep =>
      step_guarded hs hchecked hstep
    obtain ⟨⟨hconns, cfg, reg, stored, now, nowMs, startedAt, hnet⟩, hfiled⟩ := hs
    refine ⟨⟨hfiled, fun n s₀ hs₀ => ?_, fun n s₀ hs₀ => ?_⟩, fun id k c hk => ?_⟩
    · rw [hnet] at hs₀
      simp [NetState.new] at hs₀
    · rw [hnet] at hs₀
      simp [NetState.new] at hs₀
    · rw [hconns] at hk
      simp at hk
  exact hguarded.net.entitled

/-! ### With and without an operator in between -/

namespace EntitledExample

open ControlExample

theorem start_initial_filed : (filedSystem .byteText).Initial start := by
  have hid : (Registry.new "u").idFor "gw" = 1 := by decide +kernel
  have hregistry : registry.members =
      (Registry.new "u").members.insert ((Registry.new "u").idFor "gw") record := by
    rfl
  exact ⟨start_initial, (Registry.filed_new "u").insert hid.symm rfl hregistry⟩

def register : ControlEvent := .conn 0 (.register 0 (atSecond 3))

def reading (t : Nat) : AdminReading := ⟨fun _ _ => [], ⟨t, t, t * 1000⟩, ⟨true, true, true, true, true⟩⟩

def disable : LockedOp := .admin [] (reading 2) (.setDisabled "gw" true)

def standing (s : Control) : Option Nat × Option Bool :=
  ((s.net.sessions[(1 : NodeId)]?).map Session.id, (s.net.registry.members[(1 : NodeId)]?).map (·.disabled))

end EntitledExample

open ControlExample EntitledExample in
theorem sessions_entitled_registered : ∃ s,
    (filedSystem .byteText).run start [.hello 0 claims, register] = some s ∧
      standing s = (some 0, some false) ∧ s.net.Entitled := by
  have hstanding : ((filedSystem .byteText).run start [.hello 0 claims, register]).map standing =
      some (some 0, some false) := by decide +kernel
  have hvouches : ((filedSystem .byteText).step start (.hello 0 claims)).map
      (fun s => ((s.conns[(0 : Nat)]?).map fun k => s.net.vouches k.claims)) = some (some true) := by
    decide +kernel
  obtain ⟨s, hrun, hstanding⟩ := map_eq_some_iff.mp hstanding
  refine ⟨s, hrun, hstanding, @sessions_entitled .byteText s ?_⟩
  simp only [TransitionSystem.run_cons, TransitionSystem.run_nil, bind_eq_some_iff,
    some.injEq, exists_eq_right] at hrun
  obtain ⟨s₁, h₁, h₂⟩ := hrun
  rw [h₁, map_some, some.injEq] at hvouches
  refine .step (.step (.initial start_initial_filed) ?_ h₁) ?_ h₂
  · trivial
  · intro k hk
    rw [hk, map_some, some.injEq] at hvouches
    exact hvouches

open ControlExample EntitledExample in
/-- The credential is verified, the member disabled, and then the session registered. -/
theorem disabled_member_registers : ∃ s₁ s₂,
    (filedSystem .byteText).run start [.hello 0 claims] = some s₁ ∧ disable.Succeeds .byteText s₁.net ∧
      (filedSystem .byteText).run s₁ [.outside disable, register] = some s₂ ∧
      standing s₂ = (some 0, some true) ∧ ¬ s₂.net.Entitled := by
  have hok : ((filedSystem .byteText).run start [.hello 0 claims]).map
      (fun s => (s.net.exec .byteText [] (reading 2) (.setDisabled "gw" true)).2.isOk) = some true := by
    decide +kernel
  have hstanding : ((filedSystem .byteText).run start [.hello 0 claims]).bind (fun s =>
      ((filedSystem .byteText).run s [.outside disable, register]).map standing) =
        some (some 0, some true) := by
    decide +kernel
  obtain ⟨s₁, h₁, hrest⟩ := bind_eq_some_iff.mp hstanding
  obtain ⟨s₂, h₂, hstanding⟩ := map_eq_some_iff.mp hrest
  rw [h₁, map_some, some.injEq] at hok
  refine ⟨s₁, s₂, h₁, ?_, h₂, hstanding, fun hentitled => ?_⟩
  · change (s₁.net.exec .byteText [] (reading 2) (.setDisabled "gw" true)).2 = .ok ()
    cases hexec : (s₁.net.exec .byteText [] (reading 2) (.setDisabled "gw" true)).2 with
    | ok _ => rfl
    | error err =>
      rw [hexec] at hok
      cases hok
  · simp only [standing, Prod.mk.injEq] at hstanding
    obtain ⟨hsession, hdisabled⟩ := hstanding
    obtain ⟨s, hs, -⟩ := map_eq_some_iff.mp hsession
    obtain ⟨r, hr, henabled, -⟩ := hentitled 1 s hs
    rw [hr, map_some, henabled] at hdisabled
    cases hdisabled

end Control

end Nqvpn
