import Nqvpn.NetworkRuns

/-!
# A join that is denied

The HTTP handler runs the whole join first. Only then does it probe the address a
relay advertises, and under `deny` it answers with an error if nothing is there. By
that time the join is committed and published. Nothing has changed only if there was
nothing to change: the same machine joined from the same place in the same second,
and the view was current.
-/

namespace Nqvpn

open Fallible Std.ExtTreeMap

/-- What the coordinator learned about an advertised address. -/
inductive Reachability
  | unknown
  | reachable
  | unreachable
deriving DecidableEq, Repr

namespace NetState

/-- The join as the API serves it, once the secret has named the member. The verdict of
the probe is kept beside the view, for the status page. -/
def serveJoin (env : CoordText) (ns : NetState) (name presented : String) (req : JoinRequest)
    (peerIp : String) (signing : Signing) (t : Clock) (db : DbOutcome) (probe : String → Reachability) :
    NetState × Option (NodeId × Reachability) × Except ApiError JoinResponse :=
  let joined := ns.join env name presented req peerIp signing t db
  match joined.2 with
  | .error e => (joined.1, none, .error e)
  | .ok (_, resp) =>
    match resp.role, resp.relayAddr with
    | .relay, some addr =>
      let policy := joined.1.cfg.settings.relayReachability
      if policy = "off" then (joined.1, none, .ok resp)
      else if policy = "deny" ∧ probe addr = .unreachable then
        (joined.1, some (resp.nodeId, probe addr), .error (.relayUnreachable addr))
      else (joined.1, some (resp.nodeId, probe addr), .ok resp)
    | _, _ => (joined.1, none, .ok resp)

/-- The books, the registered sessions and the published view are what they were. -/
structure Unaltered (ns ns' : NetState) : Prop where
  registry : ns'.registry = ns.registry
  sessions : ns'.sessions = ns.sessions
  view : Directory.SameView ns.directory ns'.directory

/-- The record on file is what the join would write, and the view is current. -/
structure Repeats (env : CoordText) (ns : NetState) (name : String) (m : MemberCfg) (role : Role)
    (req : JoinRequest) (peerIp : String) (keys : List KeyInfo) (t : Clock) (r : MemberRecord) :
    Prop where
  filed : ns.registry.members[ns.registry.idFor name]? = some r
  counted : min (ns.registry.idFor name + 1) maxNodeId ≤ ns.registry.nextNodeId
  identity : r.name = name ∧ r.role = role
  sameMachine : isReplacement (ns.registry.byName name) req = false
  machine : r.pubkey = some req.pubkey ∧ r.certFp = some req.certFingerprint
  -- The allocator hands out the addresses on file and takes none back.
  addresses : ns.Allots env name m t ⟨r.ip4, r.ip6⟩ ns.registry
  routes : renewRoutes (((ns.registry.byName name).map (·.routes)).getD []) (declaredRoutes m role)
    t.now = r.routes
  relayAddr : relayAddrOfJoin env ns name peerIp m role = .ok r.relayAddr
  lastJoin : r.lastJoinUnix = some t.now ∧ r.lastJoinFrom = some peerIp
  current : (ns.directory.recompute env.net env.encode ns.cfg ns.registry ns.leases keys t.now
    t.nowMs).2 = none

variable {env : CoordText} {ns : NetState} {name presented : String} {req : JoinRequest}
  {peerIp : String} {signing : Signing} {t : Clock} {db : DbOutcome} {probe : String → Reachability}
  {plan : JoinPlan} {granted : Granted} {reg : Registry} {relayAddr : Option String}

/-! ### What the allocator leaves -/

theorem grant_raises {α : Type} [DecidableEq α] {f : Ipam.Family α} {cfg : NetworkConfig}
    {reg reg' : Registry} {reclaim : Option Leases} {now : Nat} {member : String} {ip : Option α}
    (h : Ipam.Grant f cfg reg reclaim now member ip reg') (id : NodeId) :
    reg'.members[id]? = reg.members[id]? ∨ ∃ r r', reg.members[id]? = some r ∧
      reg'.members[id]? = some r' ∧ r.loginGen < r'.loginGen := by
  rcases h.members id with hsame | ⟨_, _, _, r, -, -, hr, -, hlost⟩
  · exact .inl hsame
  · exact .inr ⟨r, _, hr.record, hlost, Nat.lt_succ_self _⟩

theorem Allots.raises {m : MemberCfg} (h : ns.Allots env name m t granted reg) (id : NodeId) :
    reg.members[id]? = ns.registry.members[id]? ∨ ∃ r r', ns.registry.members[id]? = some r ∧
      reg.members[id]? = some r' ∧ r.loginGen < r'.loginGen := by
  obtain ⟨_, reg₁, -, h4, h6⟩ := h.grants
  rcases grant_raises h4 id with hsame | ⟨r, r₁, hr, hr₁, hlt⟩
  · rw [← hsame]
    exact grant_raises h6 id
  · right
    rcases grant_raises h6 id with hsame' | ⟨r₁', r', hr₁', hr', hlt'⟩
    · exact ⟨r, r₁, hr, hsame'.trans hr₁, hlt⟩
    · cases hr₁.symm.trans hr₁'
      exact ⟨r, r', hr, hr', hlt.trans hlt'⟩

theorem Allots.unique {m : MemberCfg} {granted' : Granted} {reg' : Registry}
    (h : ns.Allots env name m t granted reg) (h' : ns.Allots env name m t granted' reg') :
    granted = granted' ∧ reg = reg' := by
  unfold Allots at h h'
  split_ifs at h h'
  · exact Prod.mk.inj (Except.ok.inj (h.symm.trans h'))
  · exact ⟨h.1.trans h'.1.symm, h.2.trans h'.2.symm⟩

theorem Plans.allotted (h : ns.Plans env name presented req peerIp t plan granted reg relayAddr)
    (hsame : plan.registry = ns.registry) : reg = ns.registry := by
  have heq := h.registry_eq
  rw [hsame] at heq
  have hmembers : reg.members = ns.registry.members := by
    apply ext_getElem?
    intro id
    rcases h.allots.raises id with hkeep | ⟨r, r', hr, hr', hlt⟩
    · exact hkeep
    · exfalso
      by_cases hid : reg.idFor name = id
      · -- The join's own record: its login is at least the one the allocator left.
        have hrecord : ns.registry.members[id]? = some plan.record := by
          rw [heq, hid]
          exact getElem?_insert_self
        cases hr.symm.trans hrecord
        have hlogin := h.signs.loginGen
        have hstart : (reg.recordFor name plan.role t.now).loginGen = r'.loginGen := by
          rw [Registry.recordFor, hid, hr']
          rfl
        split_ifs at hlogin
        · omega
        · omega
      · have hother : ns.registry.members[id]? = reg.members[id]? := by
          rw [heq]
          simp [getElem?_insert, hid]
        rw [hr, hr'] at hother
        cases hother
        exact Nat.lt_irrefl _ hlt
  obtain ⟨_, _, -, h4, h6⟩ := h.allots.grants
  have hcursor : reg.allocCursor = ns.registry.allocCursor := (congrArg Registry.allocCursor heq).symm
  have huuid : reg.networkUuid = ns.registry.networkUuid := h6.frame.1.trans h4.frame.1
  have hnext : reg.nextNodeId = ns.registry.nextNodeId := h6.frame.2.1.trans h4.frame.2.1
  have hhwm : reg.genHwm = ns.registry.genHwm := h6.frame.2.2.1.trans h4.frame.2.2.1
  calc
    reg = ⟨reg.allocCursor, reg.networkUuid, reg.nextNodeId, reg.members, reg.genHwm⟩ := rfl
    _ = ns.registry := by rw [hcursor, huuid, hnext, hmembers, hhwm]

/-! ### The record a join writes -/

theorem joinPlan_relayAddr (h : ns.joinPlan env name presented req peerIp t = .ok plan) :
    relayAddrOfJoin env ns name peerIp plan.member plan.role = .ok plan.record.relayAddr := by
  simp only [joinPlan, bind_eq_ok, orFail_eq_ok, ensure_eq_ok] at h
  obtain ⟨-, -, ⟨member, role⟩, -, relayAddr, haddr, -, -, h⟩ := h
  split at h
  · obtain ⟨⟨granted, reg⟩, -, h⟩ := bind_eq_ok.mp h
    cases h
    exact haddr
  · obtain ⟨⟨granted, reg⟩, -, h⟩ := bind_eq_ok.mp h
    cases h
    exact haddr

theorem Plans.record_eq (h : ns.Plans env name presented req peerIp t plan granted reg relayAddr) :
    plan.record = joinedRecord req peerIp plan.replaced granted
      (renewRoutes (((ns.registry.byName name).map (·.routes)).getD [])
        (declaredRoutes plan.member plan.role) t.now) relayAddr t.now
      (reg.recordFor name plan.role t.now) := by
  have hwritten := h.written
  exact (Prod.mk.inj hwritten).2

theorem Plans.dated (h : ns.Plans env name presented req peerIp t plan granted reg relayAddr) :
    plan.record.routes = renewRoutes (((ns.registry.byName name).map (·.routes)).getD [])
        (declaredRoutes plan.member plan.role) t.now ∧
      plan.record.relayAddr = relayAddr ∧ plan.record.lastJoinUnix = some t.now ∧
      plan.record.lastJoinFrom = some peerIp := by
  rw [h.record_eq]
  exact ⟨rfl, rfl, rfl, rfl⟩

section SameBooks

variable (h : ns.Plans env name presented req peerIp t plan granted reg relayAddr)
  (hsame : plan.registry = ns.registry)
include h hsame

theorem Plans.filed : ns.registry.members[ns.registry.idFor name]? = some plan.record := by
  have heq := h.registry_eq
  rw [h.allotted hsame, hsame] at heq
  rw [congrArg Registry.members heq]
  exact getElem?_insert_self

theorem Plans.not_replaced : plan.replaced = false := by
  have hlogin := h.signs.loginGen
  have hstart : (reg.recordFor name plan.role t.now).loginGen = plan.record.loginGen := by
    rw [h.allotted hsame, Registry.recordFor, h.filed hsame]
    rfl
  split_ifs at hlogin with hreplaced
  · omega
  · simpa using hreplaced

theorem Plans.repeats {keys : List KeyInfo}
    (hplan : ns.joinPlan env name presented req peerIp t = .ok plan)
    (hcurrent : (ns.directory.recompute env.net env.encode ns.cfg ns.registry ns.leases keys t.now
      t.nowMs).2 = none) :
    ns.Repeats env name plan.member plan.role req peerIp keys t plan.record := by
  have hallots := h.allots
  have heq := h.registry_eq
  rw [h.allotted hsame] at hallots heq
  rw [hsame] at heq
  obtain ⟨hroutes, -, hjoined⟩ := h.dated
  exact
    { filed := h.filed hsame
      counted := max_eq_left_iff.mp (congrArg Registry.nextNodeId heq).symm
      identity := ⟨h.signs.name.trans (Registry.recordFor_name ..), h.signs.role⟩
      sameMachine := h.replaced.symm.trans (h.not_replaced hsame)
      machine := ⟨h.signs.pubkey, h.signs.certFp⟩
      addresses := by
        rw [h.signs.ip4, h.signs.ip6]
        exact hallots
      routes := hroutes.symm
      relayAddr := joinPlan_relayAddr hplan
      lastJoin := hjoined
      current := hcurrent }

end SameBooks

theorem Repeats.registry_eq {keys : List KeyInfo} {r : MemberRecord}
    (hplan : ns.joinPlan env name presented req peerIp t = .ok plan)
    (h : ns.Plans env name presented req peerIp t plan granted reg relayAddr)
    (hr : ns.Repeats env name plan.member plan.role req peerIp keys t r) :
    plan.replaced = false ∧ plan.registry = ns.registry := by
  have hkept : plan.replaced = false := h.replaced.trans hr.sameMachine
  obtain ⟨hgranted, hreg⟩ := h.allots.unique hr.addresses
  have hstart : ns.registry.recordFor name plan.role t.now = r := by
    rw [Registry.recordFor, hr.filed]
    obtain ⟨hname, hrole⟩ := hr.identity
    rw [← hname, ← hrole]
    rfl
  have hrecord : plan.record = r := by
    have haddr : relayAddr = r.relayAddr :=
      h.dated.2.1.symm.trans (Except.ok.inj ((joinPlan_relayAddr hplan).symm.trans hr.relayAddr))
    have hwritten := h.record_eq
    rw [hreg, hstart, hkept, hgranted, haddr, hr.routes] at hwritten
    obtain ⟨hpubkey, hcert⟩ := hr.machine
    obtain ⟨hunix, hfrom⟩ := hr.lastJoin
    rw [hwritten, joinedRecord, ← hpubkey, ← hcert, ← hunix, ← hfrom]
    rfl
  have heq := h.registry_eq
  rw [hreg, hrecord] at heq
  have hinsert : ns.registry.members.insert (ns.registry.idFor name) r = ns.registry.members := by
    apply ext_getElem?
    intro id
    rw [getElem?_insert]
    split_ifs with hid
    · rw [← compare_eq_iff_eq.mp hid]
      exact hr.filed.symm
    · rfl
  have hnext : max ns.registry.nextNodeId (min (ns.registry.idFor name + 1) maxNodeId) =
      ns.registry.nextNodeId := max_eq_left hr.counted
  rw [hinsert, hnext] at heq
  exact ⟨hkept, heq⟩

/-! ### The request as a whole -/

theorem publish_view (text : IpNetText) (encode : Snapshot → List UInt8) (base : NetState)
    (keys : List KeyInfo) (now nowMs : Nat) (saveOk : Bool) :
    ((base.directory.recompute text encode base.cfg base.registry base.leases keys now nowMs).2 = none ∧
        Unaltered base (base.publish text encode keys now nowMs saveOk)) ∨
      ((base.directory.recompute text encode base.cfg base.registry base.leases keys now nowMs).2 ≠ none ∧
        base.directory.gen < (base.publish text encode keys now nowMs saveOk).directory.gen) := by
  unfold publish
  cases hr : base.directory.recompute text encode base.cfg base.registry base.leases keys now nowMs with
  | mk d delta =>
    simp only [hr]
    rcases Directory.recompute_cases hr with ⟨rfl, hview⟩ | ⟨x, rfl, hadv⟩
    · exact .inl ⟨rfl, rfl, rfl, hview⟩
    · exact .inr ⟨by simp, hadv.gen_lt⟩

theorem join_unaltered_iff {c : Claims} {resp : JoinResponse}
    (h : (ns.join env name presented req peerIp signing t db).2 = .ok (c, resp)) :
    ns.Unaltered (ns.join env name presented req peerIp signing t db).1 ↔
      ∃ m role r, ns.authenticate name presented = some (m, role) ∧
        ns.Repeats env name m role req peerIp signing.keys t r := by
  obtain ⟨plan, hplan, hstate, -⟩ := join_eq_ok h
  obtain ⟨granted, reg, relayAddr, hplans⟩ := joinPlan_eq_ok hplan
  rw [hstate]
  -- The state in which the new view is computed, if no machine is replaced.
  have hbase (hkept : plan.replaced = false) (rows : DurableRows.Rows NetworkConfig Registry) :
      (ns.withRows rows).closeStale plan name peerIp = ns.withRows rows := by
    simp [closeStale, hkept]
  have htrims := closeStale_trims (ns.withRows ⟨ns.cfg, plan.registry, ns.stored.config,
    some plan.registry⟩) plan name peerIp
  constructor
  · intro hunaltered
    rcases publish_view env.net env.encode ((ns.withRows ⟨ns.cfg, plan.registry, ns.stored.config,
      some plan.registry⟩).closeStale plan name peerIp) signing.keys t.now t.nowMs db.mark with
      ⟨hcurrent, hquiet⟩ | ⟨-, hlater⟩
    · have hsame : plan.registry = ns.registry :=
        htrims.registry.symm.trans (hquiet.registry.symm.trans hunaltered.registry)
      have hkept := hplans.not_replaced hsame
      rw [hbase hkept, hsame] at hcurrent
      exact ⟨plan.member, plan.role, plan.record, hplans.authentic,
        hplans.repeats hsame hplan hcurrent⟩
    · have hgen := hunaltered.view.gen
      have hbefore : _ = ns.directory.gen := htrims.view.gen
      omega
  · rintro ⟨m, role, r, hauth, hrepeats⟩
    cases hplans.authentic.symm.trans hauth
    obtain ⟨hkept, hsame⟩ := hrepeats.registry_eq hplan hplans
    rw [hbase hkept, hsame]
    rcases publish_view env.net env.encode (ns.withRows ⟨ns.cfg, ns.registry, ns.stored.config,
      some ns.registry⟩) signing.keys t.now t.nowMs db.mark with ⟨-, hquiet⟩ | ⟨hnew, -⟩
    · exact { hquiet with }
    · exact absurd hrepeats.current hnew

theorem serveJoin_denied {node : NodeId} {e : ApiError}
    (h : (ns.serveJoin env name presented req peerIp signing t db probe).2 =
      (some (node, .unreachable), .error e)) :
    (∃ c resp, (ns.join env name presented req peerIp signing t db).2 = .ok (c, resp)) ∧
      (ns.serveJoin env name presented req peerIp signing t db probe).1 =
        (ns.join env name presented req peerIp signing t db).1 := by
  unfold serveJoin at h ⊢
  cases hjoin : (ns.join env name presented req peerIp signing t db).2 with
  | error e' =>
    simp only [hjoin] at h
    cases h
  | ok answer =>
    refine ⟨⟨answer.1, answer.2, rfl⟩, ?_⟩
    simp only [hjoin]
    split
    · split_ifs <;> rfl
    · rfl

/-- A denied join has no effect exactly if it repeats the last one to the second. -/
theorem denied_join_unaltered_iff {node : NodeId} {e : ApiError}
    (h : (ns.serveJoin env name presented req peerIp signing t db probe).2 =
      (some (node, .unreachable), .error e)) :
    ns.Unaltered (ns.serveJoin env name presented req peerIp signing t db probe).1 ↔
      ∃ m role r, ns.authenticate name presented = some (m, role) ∧
        ns.Repeats env name m role req peerIp signing.keys t r := by
  obtain ⟨⟨c, resp, hjoin⟩, hstate⟩ := serveJoin_denied h
  rw [hstate]
  exact join_unaltered_iff hjoin

namespace DeniedExample

def gw : MemberCfg :=
  { MemberCfg.default with secret := some "r1", relayAddr := some "gw:4433", wantVpnIp := some false }

def cfg : NetworkConfig :=
  ⟨"acme", [], { SettingsCfg.default with relayReachability := "deny" },
    (∅ : Std.ExtTreeMap String MemberCfg).insert "gw" gw, ∅⟩

def start : NetState := NetState.created .byteText (NetworkExample.reading 0) cfg (Registry.new "u")

def joinGw (key peerIp : String) (t : Nat) : LockedOp :=
  .join "gw" "r1" ⟨"r1", key, key⟩ peerIp ⟨[], fun _ => [], 0⟩ (NetworkExample.reading t).clock
    (NetworkExample.reading t).db

def online : NetState :=
  (start.perform .byteText (joinGw "k1" "here" 10)).perform .byteText
    (.register ⟨0, 1, .relay, 1000, 0, false, Link.new 0⟩ 0 ⟨[], 11, 11000, true⟩)

/-- A machine with this key joins as the relay, and nothing answers at its address. -/
def attempt (ns : NetState) (key peerIp : String) (t : Nat) :
    NetState × Option (NodeId × Reachability) × Except ApiError JoinResponse :=
  ns.serveJoin .byteText "gw" "r1" ⟨"r1", key, key⟩ peerIp ⟨[], fun _ => [], 0⟩
    (NetworkExample.reading t).clock (NetworkExample.reading t).db (fun _ => .unreachable)

def verdict : Option (NodeId × Reachability) × Except ApiError JoinResponse :=
  (some (1, .unreachable), .error (.relayUnreachable "gw:4433"))

theorem reachable_perform {ns : NetState} (h : (networkSystem .byteText).Reachable ns) {op : LockedOp}
    (hop : op.Returns ns) : (networkSystem .byteText).Reachable (ns.perform .byteText op) := by
  refine h.of_step (e := .perform op) ?_
  exact if_pos hop

theorem reachable_online : (networkSystem .byteText).Reachable online := by
  have hstart : (networkSystem .byteText).Reachable start :=
    .of_initial ⟨NetworkExample.reading 0, cfg, "u", rfl⟩
  have hreturns : (joinGw "k1" "here" 10).Returns start := fun _ => by decide +kernel
  have hjoined := reachable_perform hstart hreturns
  exact reachable_perform hjoined trivial

def retried : NetState := (attempt online "k1" "here" 20).1

def record : MemberRecord :=
  { Registry.newRecord 1 "gw" .relay 10 with
    pubkey := some "k1", certFp := some "k1", relayAddr := some "gw:4433"
    lastJoinUnix := some 20, lastJoinFrom := some "here" }

theorem retried_repeats : retried.Repeats .byteText "gw" gw .relay ⟨"r1", "k1", "k1"⟩ "here" []
    (NetworkExample.reading 20).clock record where
  filed := by decide +kernel
  counted := by decide +kernel
  identity := ⟨rfl, rfl⟩
  sameMachine := by decide +kernel
  machine := ⟨rfl, rfl⟩
  addresses := ⟨rfl, rfl⟩
  routes := by decide +kernel
  relayAddr := by decide +kernel
  lastJoin := ⟨rfl, rfl⟩
  current := by decide +kernel

end DeniedExample

open DeniedExample in
/-- Trying again within the second changes nothing more. -/
theorem denied_join_unaltered_iff_retry :
    (attempt retried "k1" "here" 20).2 = verdict ∧
      retried.Unaltered (attempt retried "k1" "here" 20).1 := by
  have hdenied : (attempt retried "k1" "here" 20).2 = verdict := by decide +kernel
  refine ⟨hdenied, (denied_join_unaltered_iff hdenied).mpr ⟨gw, .relay, record, ?_, retried_repeats⟩⟩
  decide +kernel

open DeniedExample in
/-- A second machine with the relay's secret is denied. The relay has lost its session and
its login all the same, and the key published for it is the other machine's. -/
theorem denied_join_replaces :
    (networkSystem .byteText).Reachable online ∧ (attempt online "k2" "there" 20).2 = verdict ∧
      (online.registry.members[(1 : NodeId)]?).map (fun r => (r.loginGen, r.pubkey)) = some (0, some "k1") ∧
      ((attempt online "k2" "there" 20).1.registry.members[(1 : NodeId)]?).map
        (fun r => (r.loginGen, r.pubkey)) = some (1, some "k2") ∧
      online.sessions.contains 1 = true ∧
      (attempt online "k2" "there" 20).1.sessions.contains 1 = false ∧
      online.directory.gen < (attempt online "k2" "there" 20).1.directory.gen ∧
      ¬ online.Unaltered (attempt online "k2" "there" 20).1 := by
  have hgen : online.directory.gen < (attempt online "k2" "there" 20).1.directory.gen := by
    decide +kernel
  refine ⟨reachable_online, by decide +kernel, by decide +kernel, by decide +kernel,
    by decide +kernel, by decide +kernel, hgen, fun h => ?_⟩
  rw [h.view.gen] at hgen
  exact Nat.lt_irrefl _ hgen

end NetState

end Nqvpn
