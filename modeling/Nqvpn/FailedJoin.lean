import Nqvpn.InPlace
import Nqvpn.UsableAddresses
import Nqvpn.CredentialSecrets

/-!
# A join that fails

The join works on the network's registry in place: addresses are taken back and cursors moved before
the record is written, and the record before anything is stored. Here it is followed in that order,
a failure leaving the state as it is at that point. Nothing fails between the first change and the
commit, and a commit that fails reads the stored registry back.
-/

namespace Nqvpn

open Fallible InPlace Settles

namespace Ipam

section Allocate

variable (env : CoordText) (cfg : NetworkConfig) (reclaim : Option Leases) (now : Nat) (member : String)

/-- `alloc_v4`; `taken` says which addresses are others'. -/
def allocV4InPlace (taken : BitVec 32 → Bool) : EStateM ApiError Registry (Option (BitVec 32)) := do
  let (net, len) ← check (orFail cfg.ipv4Cidr (.internal "validated networks always have an IPv4 CIDR"))
  let hosts := v4Hosts net len
  let reg ← get
  match scanFromCursor hosts.1 (fun i => BitVec.ofNat 32 (hosts.2 + i)) taken
      (reg.allocCursor["ipv4"]?.getD 0) with
  | some (ip, next) =>
    modify fun reg => { reg with allocCursor := reg.allocCursor.insert "ipv4" next }
    return some ip
  | none =>
    let eligible (ip : BitVec 32) : Bool :=
      !isHard cfg (·.preferredIp4) ip && (IpNet.v4 net len).containsAddr (.v4 ip)
    match reclaim.bind fun leases => reclaimable cfg reg leases now member (·.ip4) eligible with
    | some (victim, ip) =>
      modify fun reg => retire reg victim fun r => { r with ip4 := none }
      return some ip
    | none => throw (.addressSpaceExhausted "IPv4 range is exhausted")

/-- `alloc_v6`. -/
def allocV6InPlace (taken : BitVec 128 → Bool) : EStateM ApiError Registry (Option (BitVec 128)) := do
  match cfg.ipv6Cidr with
  | none => return none
  | some (net, len) =>
    let first := (IpNet.mask net len).toNat + 1
    let last := (IpNet.last net len).toNat
    let n := min (last + 1 - first) v6ScanCap
    let reg ← get
    match scanFromCursor n (fun i => BitVec.ofNat 128 (first + i)) taken (reg.allocCursor["ipv6"]?.getD 0) with
    | some (ip, next) =>
      modify fun reg => { reg with allocCursor := reg.allocCursor.insert "ipv6" next }
      return some ip
    | none =>
      let eligible (ip : BitVec 128) : Bool :=
        !isHard cfg (·.preferredIp6) ip && (IpNet.v6 net len).containsAddr (.v6 ip)
      match reclaim.bind fun leases => reclaimable cfg reg leases now member (·.ip6) eligible with
      | some (victim, ip) =>
        modify fun reg => retire reg victim fun r => { r with ip6 := none }
        return some ip
      | none => return none

/-- `allocate_inner`: who has what is read once, before anything is allocated. -/
def allocateInnerInPlace (preferred4 : Option (BitVec 32)) (preferred6 : Option (BitVec 128)) :
    EStateM ApiError Registry Granted := do
  let (m, _) ← check (orFail (cfg.memberByName member) (.notFound s!"member {member.quote} is not configured"))
  let reg ← get
  let taken4 := takenBy cfg reg member (·.ip4) (·.preferredIp4)
  let taken6 := takenBy cfg reg member (·.ip6) (·.preferredIp6)
  let want4 := preferred4.or m.preferredIp4
  let want6 := preferred6.or m.preferredIp6
  check (each want4.toList fun ip => checkWanted env cfg (.v4 ip) (taken4 ip))
  check (each want6.toList fun ip => checkWanted env cfg (.v6 ip) (taken6 ip))
  let current4 := ((reg.byName member).bind (·.ip4)).filter fun ip => cfg.inTunnel (.v4 ip)
  let current6 := ((reg.byName member).bind (·.ip6)).filter fun ip => cfg.inTunnel (.v6 ip)
  let ip4 ← match want4.or current4 with
    | some ip => pure (some ip)
    | none => allocV4InPlace cfg reclaim now member taken4
  -- An IPv6 address is not worth failing for.
  let ip6 ← match want6.or current6 with
    | some ip => pure (some ip)
    | none => tryCatch (allocV6InPlace cfg reclaim now member taken6) fun _ => pure none
  return ⟨ip4, ip6⟩

/-- `allocate_for_join`. -/
def allocateForJoinInPlace (leases : Leases) (allowReclaim : Bool) (preferred4 : Option (BitVec 32))
    (preferred6 : Option (BitVec 128)) : EStateM ApiError Registry Granted :=
  allocateInnerInPlace env cfg (if allowReclaim then some leases else none) now member preferred4 preferred6

end Allocate

variable {env : CoordText} {cfg : NetworkConfig} {reclaim : Option Leases} {now : Nat} {member : String}

theorem allocV4InPlace_settles (reg : Registry) :
    Settles (allocV4InPlace cfg reclaim now member (takenBy cfg reg member (·.ip4) (·.preferredIp4))) reg
      (allocV4 cfg reg reclaim now member) := by
  refine after_check fun range _ => ?_
  obtain ⟨net, len⟩ := range
  refine after_get ?_
  dsimp only [Settles]
  cases scanFromCursor (v4Hosts net len).1 (fun i => BitVec.ofNat 32 ((v4Hosts net len).2 + i))
      (takenBy cfg reg member (·.ip4) (·.preferredIp4)) (reg.allocCursor["ipv4"]?.getD 0) with
  | some found => rfl
  | none =>
    cases reclaim.bind fun leases => reclaimable cfg reg leases now member (·.ip4) fun ip =>
        !isHard cfg (·.preferredIp4) ip && (IpNet.v4 net len).containsAddr (.v4 ip) with
    | some found => rfl
    | none => rfl

theorem allocV6InPlace_eq {reg reg' : Registry} (h : Alike reg reg') :
    allocV6InPlace cfg reclaim now member (takenBy cfg reg member (·.ip6) (·.preferredIp6)) reg' =
      .ok (allocV6 cfg reg' reclaim now member).1 (allocV6 cfg reg' reclaim now member).2 := by
  have htaken : takenBy cfg reg member (·.ip6) (·.preferredIp6) =
      takenBy cfg reg' member (·.ip6) (·.preferredIp6) := h.takenBy.symm
  rw [htaken]
  unfold allocV6InPlace allocV6
  cases cfg.ipv6Cidr with
  | none => rfl
  | some range =>
    obtain ⟨net, len⟩ := range
    refine (bind_of_ok (m := get) (s := reg') rfl).trans ?_
    dsimp only
    cases scanFromCursor (min ((IpNet.last net len).toNat + 1 - ((IpNet.mask net len).toNat + 1)) v6ScanCap)
        (fun i => BitVec.ofNat 128 ((IpNet.mask net len).toNat + 1 + i))
        (takenBy cfg reg' member (·.ip6) (·.preferredIp6)) (reg'.allocCursor["ipv6"]?.getD 0) with
    | some found => rfl
    | none =>
      cases reclaim.bind fun leases => reclaimable cfg reg' leases now member (·.ip6) fun ip =>
          !isHard cfg (·.preferredIp6) ip && (IpNet.v6 net len).containsAddr (.v6 ip) with
      | some found => rfl
      | none => rfl

theorem allocateInnerInPlace_settles (reg : Registry) (preferred4 : Option (BitVec 32))
    (preferred6 : Option (BitVec 128)) :
    Settles (allocateInnerInPlace env cfg reclaim now member preferred4 preferred6) reg
      (allocateInner env cfg reg reclaim now member preferred4 preferred6) := by
  refine after_check fun m _ => ?_
  refine after_check fun _ _ => ?_
  refine after_check fun _ _ => ?_
  simp only
  -- The second family never fails, whatever the first has changed.
  have hsecond {reg₁ : Registry} (halike : Alike reg reg₁) :
      (tryCatch (allocV6InPlace cfg reclaim now member (takenBy cfg reg member (·.ip6) (·.preferredIp6)))
        fun _ => pure none : EStateM ApiError Registry (Option (BitVec 128))) reg₁ =
      .ok (allocV6 cfg reg₁ reclaim now member).1 (allocV6 cfg reg₁ reclaim now member).2 := by
    change EStateM.tryCatch _ _ reg₁ = _
    unfold EStateM.tryCatch
    rw [allocV6InPlace_eq halike]
  cases (preferred4.or m.1.preferredIp4).or
      (((reg.byName member).bind (·.ip4)).filter fun ip => cfg.inTunnel (.v4 ip)) with
  | some ip =>
    cases (preferred6.or m.1.preferredIp6).or
        (((reg.byName member).bind (·.ip6)).filter fun ip => cfg.inTunnel (.v6 ip)) with
    | some ip6 => rfl
    | none =>
      exact bind_of_ok (hsecond fun _ => rfl)
  | none =>
    refine bind (allocV4InPlace_settles reg) fun ip4 reg₁ halloc => ?_
    cases (preferred6.or m.1.preferredIp6).or
        (((reg.byName member).bind (·.ip6)).filter fun ip => cfg.inTunnel (.v6 ip)) with
    | some ip6 => rfl
    | none =>
      exact bind_of_ok (hsecond (allocV4_grant halloc).alike)

end Ipam

/-! ### The transaction -/

namespace NetState

def onRegistry {α : Type} (m : EStateM ApiError Registry α) : EStateM ApiError NetState α :=
  zoom (·.registry) (fun reg ns => { ns with registry := reg }) m

/-- `member_by_name_mut` and the edit of the record it returns. -/
def memberByNameMutInPlace (name : String) (role : Role) (now : Nat) (edit : MemberRecord → MemberRecord) :
    EStateM ApiError Registry MemberRecord :=
  fun reg => .ok (reg.memberByNameMut name role now edit).2 (reg.memberByNameMut name role now edit).1

/-- `NetState::commit`. -/
def commitInPlace (saveOk loadOk : Bool) : EStateM ApiError NetState Unit := fun ns =>
  let committed := ns.commit saveOk loadOk
  if committed.2 then .ok () committed.1
  else .error (.internal "registry commit failed (change discarded)") committed.1

section Join

variable (env : CoordText) (name presented : String) (req : JoinRequest) (peerIp : String)
  (signing : Signing) (t : Clock) (db : DbOutcome)

def fileInPlace (member : MemberCfg) (role : Role) (existing : Option MemberRecord) (relayAddr : Option String)
    (granted : Granted) : EStateM ApiError NetState JoinPlan := do
  let routes := renewRoutes ((existing.map (·.routes)).getD []) (declaredRoutes member role) t.now
  let replaced := isReplacement existing req
  let record ← onRegistry (memberByNameMutInPlace name role t.now
    (joinedRecord req peerIp replaced granted routes relayAddr t.now))
  let ns ← get
  return { member, role, replaced, registry := ns.registry, record }

def joinPlanInPlace : EStateM ApiError NetState JoinPlan := do
  let ns ← get
  check (ensure (ns.deleted = false) .badCredentials)
  let (member, role) ← check (orFail (ns.authenticate name presented) .badCredentials)
  let relayAddr ← check (relayAddrOfJoin env ns name peerIp member role)
  let existing := ns.registry.byName name
  check (ensure (existing.any (·.disabled) = false) .clientDisabled)
  if member.wantVpnIp.getD true then
    -- Nothing is reclaimed while the fleet may still be reconnecting.
    let granted ← onRegistry (Ipam.allocateForJoinInPlace env ns.cfg t.reclaimNow name ns.leases
      (!ns.inGrace t.now) member.preferredIp4 member.preferredIp6)
    fileInPlace name req peerIp t member role existing relayAddr granted
  else fileInPlace name req peerIp t member role existing relayAddr ⟨none, none⟩

/-- The second phase of `AppState::join`, under the network's lock. -/
def joinInPlace : EStateM ApiError NetState (Claims × JoinResponse) := do
  let plan ← joinPlanInPlace env name presented req peerIp t
  commitInPlace db.registry db.reload
  modify fun ns => ns.closeStale plan name peerIp
  modify fun ns => ns.publish env.net env.encode signing.keys t.now t.nowMs db.mark
  let ns ← get
  let claims := ns.joinClaims env plan name req t.now
  return (claims, ns.joinResponse plan name claims signing)

end Join

variable {env : CoordText} {name presented : String} {req : JoinRequest} {peerIp : String}
  {signing : Signing} {t : Clock} {db : DbOutcome}

theorem joinPlanInPlace_settles (ns : NetState) :
    Settles (joinPlanInPlace env name presented req peerIp t) ns
      ((ns.joinPlan env name presented req peerIp t).map fun plan =>
        (plan, { ns with registry := plan.registry })) := by
  unfold joinPlan joinPlanInPlace
  simp only [map_bind]
  refine after_get ?_
  refine after_check fun _ _ => ?_
  refine after_check fun m _ => ?_
  refine after_check fun relayAddr _ => ?_
  refine after_check fun _ _ => ?_
  by_cases hwant : m.1.wantVpnIp.getD true
  · simp only [if_pos hwant, map_bind]
    exact after_zoom (Ipam.allocateInnerInPlace_settles ns.registry _ _) rfl fun _ _ _ => rfl
  · simp only [if_neg hwant]
    rfl

theorem joinInPlace_eq (ns : NetState) :
    joinInPlace env name presented req peerIp signing t db ns =
      outcome (ns.join env name presented req peerIp signing t db) := by
  have hplan : joinPlanInPlace env name presented req peerIp t ns = _ := joinPlanInPlace_settles ns
  unfold joinInPlace join
  cases hjoin : ns.joinPlan env name presented req peerIp t with
  | error e =>
    rw [hjoin] at hplan
    exact bind_of_error hplan
  | ok plan =>
    rw [hjoin] at hplan
    rw [bind_of_ok hplan]
    simp only
    by_cases hsaved : ({ ns with registry := plan.registry }.commit db.registry db.reload).2
    · have hcommit : commitInPlace db.registry db.reload { ns with registry := plan.registry } = _ := if_pos hsaved
      rw [bind_of_ok hcommit, if_pos hsaved]
      rfl
    · have hcommit : commitInPlace db.registry db.reload { ns with registry := plan.registry } = _ := if_neg hsaved
      rw [bind_of_error hcommit, if_neg hsaved]
      rfl

theorem commit_failed {reg : Registry} {saveOk loadOk : Bool} (ns : NetState)
    (hstored : ns.stored.registry = some ns.registry) (hload : saveOk = false → loadOk)
    (h : ¬ ({ ns with registry := reg }.commit saveOk loadOk).2) :
    ({ ns with registry := reg }.commit saveOk loadOk).1 = ns := by
  cases saveOk with
  | true => exact absurd rfl h
  | false =>
    obtain rfl := hload rfl
    simp [commit, hstored]

theorem join_failed {ns : NetState} (hstored : ns.stored.registry = some ns.registry)
    (hreload : db.registry = false → db.reload) {e : ApiError}
    (h : (ns.join env name presented req peerIp signing t db).2 = .error e) :
    (ns.join env name presented req peerIp signing t db).1 = ns := by
  unfold join at h ⊢
  cases hplan : ns.joinPlan env name presented req peerIp t with
  | error e => rfl
  | ok plan =>
    simp only [hplan] at h ⊢
    split_ifs at h ⊢ with hsaved
    exact commit_failed ns hstored hreload hsaved

end NetState

namespace Coordinator

variable {K : Type}

/-- `AppState::join`, given the verdict of the rate limiter and whom the secret was found to belong
to when it was looked up. -/
def joinInPlace (env : CoordText) (allowed : Bool) (found : Option (String × String)) (req : JoinRequest)
    (peerIp : String) (t : Clock) (db : DbOutcome) : EStateM ApiError (Coordinator K) (Claims × JoinResponse) := do
  let st ← get
  let called ← check do
    ensure (allowed = true) ApiError.rateLimited
    let who ← orFail found ApiError.badCredentials
    ensure (validPubkey env req.pubkey = true)
      (ApiError.badRequest "pubkey must be a base64 32-byte X25519 key")
    ensure (validFingerprint req.certFingerprint = true)
      (ApiError.badRequest "cert_fingerprint must be sha256:<64 hex>")
    let ns ← orFail st.networks[who.1]? ApiError.badCredentials
    return (who, ns)
  zoom (fun _ => called.2) (fun ns st => { st with networks := st.networks.insert called.1.1 ns })
    (NetState.joinInPlace env called.1.2 (trimText req.secret) req peerIp st.signing t db)

variable {env : CoordText} {allowed : Bool} {found : Option (String × String)} {req : JoinRequest}
  {peerIp : String} {t : Clock} {db : DbOutcome} {st : Coordinator K}

theorem joinInPlace_eq (st : Coordinator K) :
    joinInPlace env allowed found req peerIp t db st =
      outcome (st.join env allowed found req peerIp t db) := by
  unfold joinInPlace join
  refine (bind_of_ok (m := get) rfl).trans ?_
  split
  · rename_i e hrefused
    exact bind_of_error (check_of_error hrefused)
  · rename_i who ns hcalled
    exact (bind_of_ok (check_of_ok hcalled)).trans (zoom_of_outcome (NetState.joinInPlace_eq ns))

end Coordinator

namespace JoinExample

/-- Ann is on record with the only address of the range, and has never been connected. -/
def network : NetState :=
  NetState.created .byteText (NetworkExample.reading 0) NetworkExample.cfg
    ((Registry.new "u").memberByNameMut "ann" .client 0 fun r => { r with ip4 := some 0x0a000001#32 }).1

def coordinator : Coordinator Unit :=
  { TenancyExample.start.coord with networks := (∅ : Std.ExtTreeMap String NetState).insert "acme" network }

def bob (db : DbOutcome) : EStateM ApiError (Coordinator Unit) (Claims × JoinResponse) :=
  Coordinator.joinInPlace .byteText true (some ("acme", "bob")) ⟨"b1", "l", TenancyExample.fingerprint⟩ "host"
    (NetworkExample.reading 100).clock db

end JoinExample

namespace Coordinator

variable {K : Type} {env : CoordText} {allowed : Bool} {found : Option (String × String)} {req : JoinRequest}
  {peerIp : String} {t : Clock} {db : DbOutcome} {st : Coordinator K}

/-- A join that fails, wherever it does, leaves the coordinator as it was, if the registries in
memory are the stored ones and one that could not be stored can be read back. -/
theorem failed_join_inert
    (hstored : ∀ (id : String) (ns : NetState), st.networks[id]? = some ns →
      ns.stored.registry = some ns.registry)
    (hreload : db.registry = false → db.reload = true) {e : ApiError} {st' : Coordinator K}
    (h : joinInPlace env allowed found req peerIp t db st = .error e st') : st' = st := by
  rw [joinInPlace_eq, outcome_eq_error] at h
  rcases Tenancy.join_cases st allowed found req peerIp t db with ⟨err, hrefused⟩ | ⟨who, ns, -, hns, hjoin⟩
  · rw [hrefused] at h
    cases h
    rfl
  · rw [hjoin] at h
    obtain ⟨rfl, hfailed⟩ := Prod.mk.inj h
    rw [NetState.join_failed (hstored who.1 ns hns) hreload hfailed]
    have hsame : st.networks.insert who.1 ns = st.networks := by
      refine Std.ExtTreeMap.ext_getElem? fun id => ?_
      rw [Std.ExtTreeMap.getElem?_insert]
      split_ifs with hid
      · obtain rfl := Std.LawfulEqCmp.eq_of_compare hid
        exact hns.symm
      · rfl
    rw [hsame]

open JoinExample

/-- Bob's join takes ann's address back and then cannot be stored; nothing of it is left. -/
theorem failed_join_inert_reclaimed :
    ((bob ⟨true, true, true, true, true⟩).run' coordinator).map (fun x => x.2.ip4) =
        some (some 0x0a000001#32) ∧
      ∃ e, bob ⟨true, false, true, true, true⟩ coordinator = .error e coordinator := by
  refine ⟨by decide +kernel, ?_⟩
  have hfails : ((bob ⟨true, false, true, true, true⟩).run' coordinator).isNone := by decide +kernel
  cases hrun : bob ⟨true, false, true, true, true⟩ coordinator with
  | ok a st =>
    rw [run'_eq_value, hrun] at hfails
    cases hfails
  | error e st =>
    have hstored : ∀ (id : String) (ns : NetState), coordinator.networks[id]? = some ns →
        ns.stored.registry = some ns.registry := by
      intro id ns hns
      simp only [coordinator, Std.ExtTreeMap.getElem?_insert] at hns
      split_ifs at hns
      · cases hns
        rfl
      · simp at hns
    exact ⟨e, by rw [failed_join_inert hstored (fun _ => rfl) hrun]⟩

end Coordinator

end Nqvpn
