import Nqvpn.Leases
import Nqvpn.Registry

/-!
# The directory: the derived, generation-numbered view of one network

Registry and leases in, `Snapshot` out. The published snapshot moves only when
its content does, every move gets a new generation, and the last few deltas are
kept so that a member slightly behind can catch up without a full snapshot.
-/

namespace Nqvpn

def ringSize : Nat := 512

def minTunnelMtu : Nat := 1280

def mtuQuantum : Nat := 8

def trafficRetentionSecs : Nat := 300

structure ExitReadiness where
  ipForward : Bool
  masquerade : Bool
deriving DecidableEq, Repr

def ExitReadiness.ok (r : ExitReadiness) : Bool := r.ipForward && r.masquerade

structure TrafficSample where
  at_ : Nat
  report : TrafficReport
  prevAt : Nat
  prev : Option (Std.ExtTreeMap NodeId (Nat × Nat))

def quantizeMtu (reported ceiling : Nat) : Nat :=
  let v := min reported ceiling
  let v := if v < ceiling then v - v % mtuQuantum else v
  max v minTunnelMtu

structure Directory where
  gen : Nat
  published : Snapshot
  publishedDigest : UInt64
  ring : List Delta
  owners : Std.ExtTreeMap String NodeId
  holdDownSecs : Nat
  reportedMtu : Std.ExtTreeMap NodeId Nat
  traffic : Std.ExtTreeMap NodeId TrafficSample
  exitReadiness : Std.ExtTreeMap NodeId ExitReadiness

def relayEndpoints (cfg : NetworkConfig) (reg : Registry) : List RelayEndpoint :=
  (cfg.relays.toList.filterMap endpoint).insertionSort (fun a b => a.relayId ≤ b.relayId)
where
  /-- The address as resolved at the latest join, unless a concrete one is configured. -/
  relayAddrOf (rec_ : MemberRecord) (m : MemberCfg) : Option String :=
    match m.relayAddr with
    | some c => if !c.startsWith "auto:" then some c else rec_.relayAddr
    | none => rec_.relayAddr
  endpoint (p : String × MemberCfg) : Option RelayEndpoint :=
    match reg.byName p.1 with
    | none => none
    | some rec_ =>
      if rec_.disabled || rec_.role != .relay then none
      else
        match rec_.certFp, relayAddrOf rec_ p.2 with
        | some fp, some addr => some ⟨rec_.nodeId, p.1, addr, fp⟩
        | _, _ => none

namespace Directory

variable (text : IpNetText) (encode : Snapshot → List UInt8)

def new (initialGen holdDownSecs : Nat) : Directory where
  gen := initialGen
  published := { Snapshot.default with gen := initialGen }
  publishedDigest := { Snapshot.default with gen := initialGen }.digest encode
  ring := []
  owners := ∅
  holdDownSecs := holdDownSecs
  reportedMtu := ∅
  traffic := ∅
  exitReadiness := ∅

variable (d : Directory)

/-- The owner of one prefix: the best live registrant, except that a returning
better one waits out the hold-down while the current owner is online. -/
def chooseOwner (leases : Leases) (now : Nat) (current best : Option NodeId) :
    Option NodeId :=
  match current, best with
  | some cur, some best =>
    if cur = best then some cur
    else if leases.isOnline cur then
      let since := leases.onlineSince.getD best 0 / 1000
      if now - since ≥ d.holdDownSecs then some best else some cur
    else some best
  | _, best => best

def resolveOwners (d : Directory) (reg : Registry) (leases : Leases) (now : Nat) : Directory :=
  { d with
    owners := (reg.resolveOwners text).foldl (fun owners p =>
      let key := text.render p.1
      let live := (p.2.filter (fun q => leases.isOnline q.1)).map Prod.fst
      match d.chooseOwner leases now d.owners[key]? live.head? with
      | some o => owners.insert key o
      | none => owners) ∅ }

/-- The smallest usable MTU any member reported, clamped, naming the limiting member. -/
def networkMtu (ceiling : Nat) : NetworkMtu :=
  let best := d.reportedMtu.toList.foldl
    (fun best p => if p.2 > 0 ∧ p.2 < best.1 then (p.2, s!"#{p.1}") else best) (ceiling, "config")
  ⟨max best.1 minTunnelMtu, best.2⟩

/-- The prefixes published for one member: its addresses, the sites it owns, and
the default routes of a ready exit. -/
def memberPrefixes (id : NodeId) (rec_ : MemberRecord) : List IpNet :=
  let addrs := (rec_.ip4.map fun ip => IpNet.host (.v4 ip)).toList ++
    (rec_.ip6.map fun ip => IpNet.host (.v6 ip)).toList
  let owned := d.owners.toList.filterMap (fun p =>
    if p.2 = id then (text.parse p.1).filter (fun net => !net.isDefault) else none)
  let exitReady := ((d.exitReadiness[id]?).map ExitReadiness.ok).getD false
  let prefixes := rec_.routes.foldl (fun prefixes r =>
    if r.cidr.isDefault && exitReady && !prefixes.contains r.cidr then prefixes ++ [r.cidr]
    else prefixes) (addrs ++ owned)
  prefixes.insertionSort (fun a b => text.render a ≤ text.render b)

def memberInfo (leases : Leases) (id : NodeId) (rec_ : MemberRecord) : PeerInfo where
  nodeId := id
  name := rec_.name
  role := rec_.role
  prefixes := d.memberPrefixes text id rec_
  pubkey := rec_.pubkey.getD ""
  online := leases.isOnline id
  loginGen := rec_.loginGen

/-- The view as the inputs give it, at the current generation, before normalizing. -/
def derive (cfg : NetworkConfig) (reg : Registry) (leases : Leases) (keys : List KeyInfo) : Snapshot where
  gen := d.gen
  members := (reg.members.toList.filter (fun p => !p.2.disabled)).map
    (fun p => d.memberInfo text leases p.1 p.2)
  attachments :=
    let ok := fun n => ((reg.members[n]?).map (fun m => !m.disabled)).getD false
    (leases.attachments.toList.filter (fun p => ok p.1 && ok p.2)).map Snapshot.attachmentEntry
  relays := relayEndpoints cfg reg
  mtu := d.networkMtu cfg.settings.mtu
  keys := keys
  reservedPrefixes := cfg.cidrs ++
    ((reg.records.filter (fun m => !m.disabled)).flatMap
      (fun m => (m.routes.map RouteReg.cidr).filter (fun c => !c.isDefault)))

def pushRing (ring : List Delta) (d : Delta) : List Delta :=
  let ring := ring ++ [d]
  ring.drop (ring.length - ringSize)

def advance (next : Snapshot) : Directory × Delta :=
  let delta := d.published.diff next
  ({ d with
     gen := next.gen
     published := next
     publishedDigest := next.digest encode
     ring := pushRing d.ring delta }, delta)

def recompute (cfg : NetworkConfig) (reg : Registry) (leases : Leases) (keys : List KeyInfo)
    (now nowMs : Nat) : Directory × Option Delta :=
  let d := d.resolveOwners text reg leases now
  let next := (d.derive text cfg reg leases keys).normalize
  if next = d.published then (d, none)
  else
    let (d, delta) := d.advance encode { next with gen := max (d.gen + 1) nowMs }
    (d, some delta)

/-- The contiguous chain of deltas from `haveGen` to the current generation, if
the ring still holds it. -/
def deltasSince (haveGen : Nat) : Option (List Delta) :=
  if haveGen = d.gen then some []
  else
    let chain := d.ring.dropWhile (fun x => x.baseGen ≠ haveGen)
    if chain.isEmpty then none
    else (linked haveGen chain).bind (fun end_ => if end_ = d.gen then some chain else none)
where
  /-- The generation a contiguous chain from `expect` ends at. -/
  linked (expect : Nat) : List Delta → Option Nat
    | [] => some expect
    | x :: chain => if x.baseGen ≠ expect then none else linked x.gen chain

section Spec

variable {text encode} {d d' : Directory} {cfg : NetworkConfig} {reg : Registry} {leases : Leases}
  {keys : List KeyInfo} {now nowMs : Nat}

/-- The part of the directory that recomputing publishes is untouched. -/
structure SameView (d d' : Directory) : Prop where
  gen : d'.gen = d.gen
  published : d'.published = d.published
  publishedDigest : d'.publishedDigest = d.publishedDigest
  ring : d'.ring = d.ring

/-- A new view was published: normalized, at a larger generation, its delta in the ring. -/
structure Advanced (d d' : Directory) (delta : Delta) : Prop where
  gen_lt : d.gen < d'.gen
  gen : d'.gen = d'.published.gen
  normal : d'.published.Normal
  delta_eq : delta = d.published.diff d'.published
  ring : d'.ring = pushRing d.ring delta

theorem resolveOwners_sameView (text : IpNetText) (d : Directory) (reg : Registry)
    (leases : Leases) (now : Nat) : SameView d (d.resolveOwners text reg leases now) :=
  ⟨rfl, rfl, rfl, rfl⟩

theorem advance_advanced (encode : Snapshot → List UInt8) (d : Directory) (next : Snapshot)
    (hgen : d.gen < next.gen) (hnormal : next.Normal) :
    Advanced d (d.advance encode next).1 (d.advance encode next).2 :=
  ⟨hgen, rfl, hnormal, by simp only [advance], by simp only [advance]⟩

theorem recompute_cases (h : d.recompute text encode cfg reg leases keys now nowMs = (d', r)) :
    (r = none ∧ SameView d d') ∨ ∃ delta, r = some delta ∧ Advanced d d' delta := by
  simp only [recompute] at h
  have hown := resolveOwners_sameView text d reg leases now
  generalize d.resolveOwners text reg leases now = o at h hown
  split_ifs at h with hsame
  · cases h
    exact .inl ⟨rfl, hown⟩
  · cases h
    have hgen : o.gen < max (o.gen + 1) nowMs := lt_of_lt_of_le (Nat.lt_succ_self _) (le_max_left _ _)
    have hadv := advance_advanced encode o
      { (o.derive text cfg reg leases keys).normalize with gen := max (o.gen + 1) nowMs }
      hgen ((Snapshot.normal_normalize _).set_gen _)
    refine .inr ⟨_, rfl, ?_, hadv.gen, hadv.normal, ?_, ?_⟩
    · exact hown.gen ▸ hadv.gen_lt
    · rw [← hown.published]
      exact hadv.delta_eq
    · rw [← hown.ring]
      exact hadv.ring

theorem mem_pushRing {ring : List Delta} {x delta : Delta} (h : x ∈ pushRing ring delta) :
    x ∈ ring ∨ x = delta := by
  have hmem := List.mem_of_mem_drop h
  simpa using hmem

theorem deltasSince_eq_some {haveGen : Nat} {chain : List Delta}
    (h : d.deltasSince haveGen = some chain) :
    (∀ x ∈ chain, x ∈ d.ring) ∧ deltasSince.linked haveGen chain = some d.gen := by
  simp only [deltasSince] at h
  split_ifs at h with hcur hempty
  · cases h
    exact ⟨by simp, congrArg some hcur⟩
  · obtain ⟨e, he, hchain⟩ := Option.bind_eq_some_iff.mp h
    split_ifs at hchain with hend
    cases hchain
    exact ⟨fun x hx => (List.dropWhile_sublist _).subset hx, hend ▸ he⟩

end Spec

def pruneTraffic (now : Nat) : Directory :=
  { d with traffic := d.traffic.filter (fun _ s => now - s.at_ ≤ trafficRetentionSecs) }

/-- The links kept of a traffic report: to known peers, each once, at most `maxLinks`. -/
def keptLinks (known : NodeId → Bool) (maxLinks : Nat) : List LinkTraffic → List NodeId →
    List LinkTraffic
  | [], _ => []
  | l :: links, seen =>
    if seen.length < maxLinks && known l.peerId && !seen.contains l.peerId then
      l :: keptLinks known maxLinks links (l.peerId :: seen)
    else keptLinks known maxLinks links seen

def recordTraffic (relay : NodeId) (report : TrafficReport) (now : Nat) (known : NodeId → Bool)
    (maxLinks : Nat) : Directory :=
  let report := { report with links := keptLinks known maxLinks report.links [] }
  let sample : TrafficSample :=
    match d.traffic[relay]? with
    | some s => ⟨now, report, s.at_, some (KeyedList.collect LinkTraffic.peerId
        (fun l => (l.txBytes, l.rxBytes)) s.report.links)⟩
    | none => ⟨now, report, now, none⟩
  { d with traffic := d.traffic.insert relay sample }.pruneTraffic now

end Directory

end Nqvpn
