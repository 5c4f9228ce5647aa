import Nqvpn.Mesh
import Nqvpn.Snapshot

/-!
# Frames arrive

A fleet of relays whose tables are brought in line with one view, in which every attached client has
its session at the relay the view names and every two relays share a link. A frame that enters such a
fleet is handed to its destination by the relay it enters at, or crosses one link and is handed over
by the relay at the other end.
-/

namespace Nqvpn

open Std.ExtTreeMap RoutedHeader RelayNet MeshState Option

def frameSlack : Nat := routedHeaderLen + 8 + 16 + 256

def Snapshot.relayOf (view : Snapshot) (node : NodeId) : Option NodeId :=
  (view.attachments.findRev? (fun a => a.nodeId = node)).map AttachmentEntry.relayId

namespace RelayNet

/-- What `reconcile` changes for the data plane: the attachment table and the cap on frames. The
sessions it closes leave the tables when they end. -/
def reconcile (net : RelayNet) (mtuCeiling : Nat) (view : Snapshot) : RelayNet :=
  let mtu := max mtuCeiling view.mtu.mtu
  { net with
    tables := net.tables.replaceAttachments (view.attachments.map fun a => (a.nodeId, a.relayId))
    maxFrame := if 0 < mtu then mtu + frameSlack else 0 }

theorem getElem?_attachments_reconcile (net : RelayNet) (mtuCeiling : Nat) (view : Snapshot) (node : NodeId) :
    (net.reconcile mtuCeiling view).tables.attachments[node]? = view.relayOf node := by
  have hcollect : ofList (view.attachments.map fun a => (a.nodeId, a.relayId)) =
      KeyedList.collect AttachmentEntry.nodeId AttachmentEntry.relayId view.attachments := by
    rw [ofList_eq_insertMany_empty, insertMany_list_eq_foldl, List.foldl_map]
    rfl
  change (ofList (view.attachments.map fun a => (a.nodeId, a.relayId)))[node]? = _
  rw [hcollect, KeyedList.getElem?_collect]
  rfl

/-! ### What a relay does with a frame it can send -/

section Exact

variable {net : RelayNet} {origin : Origin} {arrivedOn : Bool} {datagram buf : Datagram} {h : RoutedHeader}
  {hop lane : UInt8} {m : Moment}
variable {route : Route} {cs : List (NodeId × Datagram × UInt8)} {ds : List (NodeId × Datagram)} {bytes : Nat}

theorem passes_transmit_sent (hchaos : net.chaos = none) {detail : NodeId} {send : Datagram → Effect}
    {counted : List Effect} (hchannel : net.channelFor route) (hsent : m.sent)
    (hcounted : net.Passes counted [] []) (hsend : net.Passes [send buf] cs ds) :
    net.Passes (net.transmit arrivedOn h hop route detail buf m send counted) cs ds := by
  have hnone : net.applyChaos m buf = some buf := by simp [applyChaos, hchaos]
  simp only [transmit, hnone, hchaos, hchannel, hsent, reduceCtorEq, false_and, if_false, if_true, List.nil_append]
  simpa using hsend.append (hcounted.append (net.passes_trace h hop arrivedOn route.decision detail))

variable (net) in
/-- A route on which the relay hands a frame to `dst`. -/
inductive HandsOver : Route → NodeId → Prop
  | client {node : NodeId} (session : node ∈ net.clients) : HandsOver (.toLocal node) node
  | endpoint (present : net.endpoint = true) : HandsOver .me net.myNodeId

theorem HandsOver.passes (hchaos : net.chaos = none) (hsent : m.sent) {dst : NodeId}
    (hroute : net.HandsOver route dst) :
    net.Passes (net.carry origin arrivedOn h hop route buf bytes lane m) [] [(dst, buf)] := by
  cases hroute with
  | client session =>
    refine passes_transmit_sent hchaos (decide_eq_true session) hsent ?_ ⟨rfl, rfl⟩
    cases origin <;> exact ⟨rfl, rfl⟩
  | endpoint present =>
    simp only [carry, present, if_true]
    have hdeliver : net.Passes [.deliver buf] [] [(net.myNodeId, buf)] := ⟨rfl, rfl⟩
    exact ((net.passes_trace ..).append hdeliver).cons_silent rfl rfl

theorem passes_carry_mesh (hchaos : net.chaos = none) (hsent : m.sent) {peer : NodeId}
    (hsession : peer ∈ net.meshSessions) :
    net.Passes (net.carry origin arrivedOn h hop (.mesh peer) buf bytes lane m) [(peer, buf, lane)] [] :=
  passes_transmit_sent hchaos (decide_eq_true hsession) hsent ⟨rfl, rfl⟩ ⟨rfl, rfl⟩

theorem passes_forward (hsize : net.maxFrame = 0 ∨ datagram.length ≤ net.maxFrame)
    (hparse : parse datagram = some h) (hbump : bumpHop datagram = some (buf, hop))
    (hcarry : net.Passes (net.carry origin arrivedOn h hop (net.tables.route origin h.srcId h.dstId) buf datagram.length lane m) cs ds) :
    net.Passes (net.forward origin arrivedOn datagram lane m) cs ds := by
  have hcounted := hcarry.cons_silent (e := .count (net.tables.route origin h.srcId h.dstId).decision) rfl rfl
  have hcap : ¬ (0 < net.maxFrame ∧ net.maxFrame < datagram.length) := by omega
  unfold forward forwardBy
  simp only [if_neg hcap, if_neg (head?_ne_note hparse), hparse, hbump]
  cases origin with
  | client node => exact hcounted
  | relay peer => exact hcounted.cons_silent rfl rfl

end Exact

end RelayNet

/-! ### The fleet -/

section Fleet

variable (relays : Std.ExtTreeMap NodeId HonestRelay) (view : Snapshot)

/-- A client the view attaches to a relay. -/
structure Attached (node relay : NodeId) : Prop where
  listed : view.relayOf node = some relay
  client : node ∉ relays

/-- Relays in line with a view. -/
structure RelayFleet : Prop where
  ids : ∀ (id : NodeId) (r : HonestRelay), relays[id]? = some r → r.net.myNodeId = id
  reconciled : ∀ (id : NodeId) (r : HonestRelay), relays[id]? = some r →
    ∃ (before : RelayNet) (mtuCeiling : Nat), r.net = before.reconcile mtuCeiling view
  /-- An attached client has a session at the relay the view names, and at no other. -/
  present : ∀ node relay, Attached relays view node relay → relay ∈ relays
  sessions : ∀ (id : NodeId) (r : HonestRelay), relays[id]? = some r →
    ∀ node relay, Attached relays view node relay →
      (node ∈ r.net.tables.localNodes ↔ relay = id) ∧ (node ∈ r.net.clients ↔ relay = id)
  /-- A relay has a mesh session with each of the others. -/
  links : ∀ (id : NodeId) (r : HonestRelay), relays[id]? = some r → ∀ peer : NodeId,
    (peer ∈ r.net.tables.mesh ↔ peer ∈ relays ∧ peer ≠ id) ∧
      (peer ∈ r.net.meshSessions ↔ peer ∈ relays ∧ peer ≠ id)
  /-- Client sessions are not relays'. -/
  roles : ∀ (id : NodeId) (r : HonestRelay), relays[id]? = some r → ∀ peer ∈ relays,
    peer ∉ r.net.tables.localNodes

/-- Who frames can be sent to, and the relay that hands them over. -/
inductive Destination : NodeId → NodeId → Prop
  | client {node relay : NodeId} (attached : Attached relays view node relay) : Destination node relay
  | endpoint {id : NodeId} {r : HonestRelay} (relay : relays[id]? = some r) (role : r.net.endpoint = true) :
    Destination id id

/-- A frame as an attached client, or a relay's own endpoint, sends it. -/
structure Sendable (inj : Injection) (h : RoutedHeader) : Prop where
  parsed : parse inj.datagram = some h
  own : h.srcId = inj.node
  fresh : h.hop = 0
  source : Attached relays view inj.node inj.relay ∨ inj.node = inj.relay ∧ inj.relay ∈ relays
  destination : ∃ relay, Destination relays view h.dstId relay
  size : ∀ (id : NodeId) (r : HonestRelay), relays[id]? = some r →
    r.net.maxFrame = 0 ∨ inj.datagram.length ≤ r.net.maxFrame

variable {relays view}
variable {dst id relay : NodeId} {r : HonestRelay}

theorem RelayFleet.exists_relay (hfleet : RelayFleet relays view) (h : Destination relays view dst relay) : ∃ r, relays[relay]? = some r := by
  cases h with
  | client attached =>
    have hmem := hfleet.present dst relay attached
    exact isSome_iff_exists.mp (mem_iff_isSome_getElem?.mp hmem)
  | endpoint relay role => exact ⟨_, relay⟩

theorem RelayFleet.handsOver (hfleet : RelayFleet relays view) {srcId : NodeId} {origin : Origin}
    (hr : relays[relay]? = some r) (hdst : Destination relays view dst relay)
    (hsrc : r.net.tables.srcSpoofed origin srcId = false) :
    r.net.HandsOver (r.net.tables.route origin srcId dst) dst := by
  have hid : r.net.tables.myNodeId = relay := hfleet.ids relay r hr
  unfold Tables.route
  rw [if_neg (Bool.eq_false_iff.mp hsrc), hid]
  cases hdst with
  | client attached =>
    have hne : dst ≠ relay := by
      rintro rfl
      exact attached.client (hfleet.present dst dst attached)
    have hlocal := hfleet.sessions relay r hr dst relay attached
    rw [if_neg hne, if_pos (hlocal.1.mpr rfl)]
    exact .client (hlocal.2.mpr rfl)
  | @endpoint r' hrelay role =>
    obtain rfl := some.inj (hrelay.symm.trans hr)
    rw [if_pos rfl]
    exact (hfleet.ids dst r' hr) ▸ .endpoint role

theorem RelayFleet.crosses (hfleet : RelayFleet relays view) (hr : relays[id]? = some r)
    (hdst : Destination relays view dst relay) (hne : relay ≠ id) (node : NodeId) :
    r.net.tables.route (.client node) node dst = .mesh relay ∧ relay ∈ r.net.meshSessions := by
  have hid : r.net.tables.myNodeId = id := hfleet.ids id r hr
  have hmem : relay ∈ relays := by
    obtain ⟨r', hr'⟩ := hfleet.exists_relay hdst
    exact mem_iff_isSome_getElem?.mpr (hr' ▸ rfl)
  have hlink := hfleet.links id r hr relay
  refine ⟨?_, hlink.2.mpr ⟨hmem, hne⟩⟩
  have hown : r.net.tables.srcSpoofed (.client node) node = false := by simp [Tables.srcSpoofed]
  unfold Tables.route
  rw [if_neg (Bool.eq_false_iff.mp hown), hid]
  cases hdst with
  | client attached =>
    have hself : dst ≠ id := by
      rintro rfl
      exact attached.client (mem_iff_isSome_getElem?.mpr (hr ▸ rfl))
    have hlocal : dst ∉ r.net.tables.localNodes := fun hin =>
      hne ((hfleet.sessions id r hr dst relay attached).1.mp hin)
    have hmesh : dst ∉ r.net.tables.mesh := fun hin =>
      attached.client ((hfleet.links id r hr dst).1.mp hin).1
    obtain ⟨before, mtuCeiling, hnet⟩ := hfleet.reconciled id r hr
    have hattached : r.net.tables.attachments[dst]? = some relay := by
      rw [hnet, getElem?_attachments_reconcile]
      exact attached.listed
    simp [if_neg hself, if_neg hlocal, if_neg hmesh, hattached, if_pos (hlink.1.mpr ⟨hmem, hne⟩)]
  | endpoint hrelay role =>
    have hlocal : dst ∉ r.net.tables.localNodes := hfleet.roles id r hr dst hmem
    simp [if_neg hne, if_neg hlocal, if_pos (hlink.1.mpr ⟨hmem, hne⟩)]

theorem RelayFleet.not_spoofed (hfleet : RelayFleet relays view) {peer node : NodeId}
    (hr : relays[id]? = some r) (hsource : Attached relays view node peer ∨ node = peer ∧ peer ∈ relays) :
    r.net.tables.srcSpoofed (.relay peer) node = false := by
  rcases hsource with attached | ⟨rfl, -⟩
  · obtain ⟨before, mtuCeiling, hnet⟩ := hfleet.reconciled id r hr
    have hattached : r.net.tables.attachments[node]? = some peer := by
      rw [hnet, getElem?_attachments_reconcile]
      exact attached.listed
    simp [Tables.srcSpoofed, hattached]
  · simp [Tables.srcSpoofed]

def Injection.onward (inj : Injection) : Datagram := inj.datagram.set offHop 1

section Hops

variable {inj : Injection} {h : RoutedHeader} {r : HonestRelay} {goal : NodeId} {m : Moment}

theorem Sendable.bump (hsend : Sendable relays view inj h) : bumpHop inj.datagram = some (inj.onward, 1) := by
  have hbump := bumpHop_of_parse hsend.parsed (.inl hsend.fresh)
  rw [hsend.fresh] at hbump
  exact hbump

theorem Sendable.parse_onward (hsend : Sendable relays view inj h) :
    parse inj.onward = some { h with hop := 1 } :=
  parse_set_hop hsend.parsed 1

theorem Sendable.enters_here (hfleet : RelayFleet relays view) (hsend : Sendable relays view inj h)
    (hr : relays[inj.relay]? = some r) (hdst : Destination relays view h.dstId inj.relay)
    (hsent : m.sent) (arrivedOn : Bool) (lane : UInt8) :
    r.net.Passes (r.net.forward (.client inj.node) arrivedOn inj.datagram lane m) []
      [(h.dstId, inj.onward)] := by
  have hown : r.net.tables.srcSpoofed (.client inj.node) h.srcId = false := by
    simp [Tables.srcSpoofed, hsend.own]
  refine passes_forward (hsend.size inj.relay r hr) hsend.parsed hsend.bump ?_
  exact (hfleet.handsOver hr hdst hown).passes r.chaosOff hsent

theorem Sendable.enters_elsewhere (hfleet : RelayFleet relays view) (hsend : Sendable relays view inj h)
    (hr : relays[inj.relay]? = some r) (hdst : Destination relays view h.dstId goal) (hne : goal ≠ inj.relay)
    (hsent : m.sent) (arrivedOn : Bool) (lane : UInt8) :
    r.net.Passes (r.net.forward (.client inj.node) arrivedOn inj.datagram lane m)
      [(goal, inj.onward, lane)] [] := by
  obtain ⟨hroute, hsession⟩ := hfleet.crosses hr hdst hne inj.node
  refine passes_forward (hsend.size inj.relay r hr) hsend.parsed hsend.bump ?_
  rw [hsend.own, hroute]
  exact passes_carry_mesh r.chaosOff hsent hsession

theorem Sendable.arrives (hfleet : RelayFleet relays view) (hsend : Sendable relays view inj h)
    (hr : relays[goal]? = some r) (hdst : Destination relays view h.dstId goal) (hsent : m.sent)
    (lane : UInt8) : ∃ buf, IsCopy buf inj.datagram ∧
      r.net.Passes (r.net.forward (.relay inj.relay) true inj.onward lane m) [] [(h.dstId, buf)] := by
  have hbump := bumpHop_of_parse hsend.parse_onward (.inr rfl)
  have hfirst : IsCopy inj.onward inj.datagram := ⟨1, rfl⟩
  have hsize : r.net.maxFrame = 0 ∨ inj.onward.length ≤ r.net.maxFrame := by
    rw [Injection.onward, List.length_set]
    exact hsend.size goal r hr
  refine ⟨_, hfirst.bump hbump, passes_forward hsize hsend.parse_onward hbump ?_⟩
  have hvouched := hfleet.not_spoofed hr (hsend.own ▸ hsend.source)
  exact (hfleet.handsOver hr hdst hvouched).passes r.chaosOff hsent

end Hops

end Fleet

/-! ### Runs -/

namespace MeshState

/-- Frame `t` has been handed to `dst`, once, and to nobody else. -/
structure HandedTo (st : MeshState) (t : Nat) (inj : Injection) (dst : NodeId) : Prop where
  landed : st.inFlight t = 0
  once : st.deliveries t = 1
  destination : ∀ d ∈ st.delivered, d.frame = some t → d.node = dst ∧ IsCopy d.datagram inj.datagram

/-- Frame `t` is on the link to `goal`. -/
structure Crossing (st : MeshState) (t : Nat) (inj : Injection) (goal : NodeId) : Prop where
  single : st.inFlight t = 1
  undelivered : st.deliveries t = 0
  bound : ∀ x ∈ st.flight, x.frame = some t →
    x.sender = inj.relay ∧ x.receiver = goal ∧ x.datagram = inj.onward

section Absorb

variable {st : MeshState} {t : Nat} {inj : Injection} {dst goal relay : NodeId} {net : RelayNet}
  {frame : Option Nat} {back : Option NodeId} {effects : List Effect} {buf : Datagram} {lane : UInt8}
  {cs : List (NodeId × Datagram × UInt8)} {ds : List (NodeId × Datagram)} {x : Transit}

theorem HandedTo.of_passes (hflight : st.inFlight t = 0) (hnone : st.deliveries t = 0)
    (hcopy : IsCopy buf inj.datagram) (hp : net.Passes effects [] [(dst, buf)]) :
    (st.absorb relay net (some t) back effects).HandedTo t inj dst := by
  refine ⟨?_, ?_, fun d hd ht => ?_⟩
  · rw [inFlight_absorb st relay (some t) back hp, hflight]
    simp
  · rw [deliveries_absorb st relay (some t) back hp, hnone]
    simp
  · rcases mem_delivered_absorb hp hd with hold | ⟨e, he, rfl⟩
    · have hpos : 0 < st.deliveries t := List.countP_pos_iff.mpr ⟨d, hold, by simpa using ht⟩
      omega
    · obtain rfl := List.mem_singleton.mp he
      exact ⟨rfl, hcopy⟩

theorem Crossing.of_passes (hflight : st.inFlight t = 0) (hnone : st.deliveries t = 0)
    (hp : net.Passes effects [(goal, inj.onward, lane)] []) :
    (st.absorb inj.relay net (some t) back effects).Crossing t inj goal := by
  refine ⟨?_, ?_, fun x hx ht => ?_⟩
  · rw [inFlight_absorb st inj.relay (some t) back hp, hflight]
    simp
  · rw [deliveries_absorb st inj.relay (some t) back hp, hnone]
    simp
  · rcases mem_flight_absorb hp hx ht with hold | ⟨-, c, hc, rfl⟩
    · have := inFlight_pos hold ht
      omega
    · obtain rfl := List.mem_singleton.mp hc
      exact ⟨rfl, rfl, rfl⟩

theorem HandedTo.absorb_other (h : st.HandedTo t inj dst) (hp : net.Passes effects cs ds)
    (hne : frame ≠ some t) : (st.absorb relay net frame back effects).HandedTo t inj dst := by
  refine ⟨?_, ?_, fun d hd ht => ?_⟩
  · rw [inFlight_absorb st relay frame back hp, if_neg hne, Nat.zero_add, h.landed]
  · rw [deliveries_absorb st relay frame back hp, if_neg hne, Nat.zero_add, h.once]
  · rcases mem_delivered_absorb hp hd with hold | ⟨e, he, rfl⟩
    · exact h.destination d hold ht
    · exact absurd ht hne

theorem Crossing.absorb_other (h : st.Crossing t inj goal) (hp : net.Passes effects cs ds)
    (hne : frame ≠ some t) : (st.absorb relay net frame back effects).Crossing t inj goal := by
  refine ⟨?_, ?_, fun x hx ht => ?_⟩
  · rw [inFlight_absorb st relay frame back hp, if_neg hne, Nat.zero_add, h.single]
  · rw [deliveries_absorb st relay frame back hp, if_neg hne, Nat.zero_add, h.undelivered]
  · rcases mem_flight_absorb hp hx ht with hold | ⟨heq, -⟩
    · exact h.bound x hold ht
    · exact absurd heq hne

theorem HandedTo.takeOff (h : st.HandedTo t inj dst) (hx : x ∈ st.flight) :
    (st.takeOff x).HandedTo t inj dst := by
  refine ⟨?_, h.once, h.destination⟩
  rw [inFlight_takeOff hx, h.landed, Nat.zero_sub]

theorem Crossing.takeOff_other (h : st.Crossing t inj goal) (hx : x ∈ st.flight) (hne : x.frame ≠ some t) :
    (st.takeOff x).Crossing t inj goal := by
  refine ⟨?_, h.undelivered, fun y hy => h.bound y (mem_of_mem_takeOff hy)⟩
  rw [inFlight_takeOff hx, if_neg hne, h.single]

end Absorb

section Underway

variable {st st' : MeshState} {view : Snapshot} {inj : Injection} {h : RoutedHeader} {goal : NodeId} {t : Nat}
variable {m : Moment}

theorem Crossing.arrive (hcross : st.Crossing t inj goal) (hfleet : RelayFleet st.relays view)
    (hsend : Sendable st.relays view inj h) (hdst : Destination st.relays view h.dstId goal) {x : Transit}
    (hx : x ∈ st.flight) (ht : x.frame = some t) (allowed : Bool) (hsent : m.sent) :
    ∃ after, relayMesh.step st (.arrive x allowed () m) = some after ∧ after.HandedTo t inj h.dstId := by
  obtain ⟨hsender, hreceiver, hdatagram⟩ := hcross.bound x hx ht
  obtain ⟨r, hr⟩ := hfleet.exists_relay hdst
  obtain ⟨buf, hcopy, hp⟩ := hsend.arrives hfleet hr hdst hsent x.lane
  have hreceive : r.net.meshReceiveBy r.net.tables.route x.sender x.datagram x.lane allowed m =
      r.net.forward (.relay inj.relay) true inj.onward x.lane m := by
    have hnote := head?_ne_note hsend.parse_onward
    rw [hdatagram, hsender, meshReceiveBy, if_neg (fun hc => hnote hc.1)]
    rfl
  refine ⟨(st.takeOff x).absorb x.receiver r.net x.frame (some x.sender)
    (r.net.meshReceiveBy r.net.tables.route x.sender x.datagram x.lane allowed m), ?_, ?_⟩
  · change st.step byTables (.arrive x allowed () m) = _
    simp only [step, if_pos hx, hreceiver, hr]
    rfl
  · rw [ht, hreceive]
    refine HandedTo.of_passes ?_ hcross.undelivered hcopy hp
    rw [inFlight_takeOff hx, if_pos ht, hcross.single]

/-- After relay `r` has forwarded a frame that just entered. -/
def forwarded (st : MeshState) (inj : Injection) (r : HonestRelay) (arrivedOn : Bool) (lane : UInt8) (m : Moment) :
    MeshState :=
  (st.enter inj).absorb inj.relay r.net (some st.injected.length) none
    (r.net.forward (.client inj.node) arrivedOn inj.datagram lane m)

theorem forwarded_frame {r : HonestRelay} {lane : UInt8} {arrivedOn : Bool}
    (hnew : st.Unborn st.injected.length) (hfleet : RelayFleet st.relays view)
    (hsend : Sendable st.relays view inj h) (hdst : Destination st.relays view h.dstId goal)
    (hr : st.relays[inj.relay]? = some r) (hsent : m.sent) :
    (st.forwarded inj r arrivedOn lane m).HandedTo st.injected.length inj h.dstId ∨
      (st.forwarded inj r arrivedOn lane m).Crossing st.injected.length inj goal := by
  have hready := hnew.ready inj
  by_cases hhere : goal = inj.relay
  · subst hhere
    have hp := hsend.enters_here hfleet hr hdst hsent arrivedOn lane
    exact .inl (HandedTo.of_passes hready.grounded hready.undelivered ⟨1, rfl⟩ hp)
  · have hp := hsend.enters_elsewhere hfleet hr hdst hhere hsent arrivedOn lane
    exact .inr (Crossing.of_passes hready.grounded hready.undelivered hp)

end Underway

end MeshState

/-- A relay forwards `inj`, from one of its clients or from its own endpoint. A client's frame has passed
the rate limit of its session. -/
inductive MeshEvent.Forwards (inj : Injection) : MeshEvent Unit → Prop
  | client {lane : UInt8} {m : Moment} (sent : m.sent = true) :
    Forwards inj (.inject inj.relay inj.node inj.datagram lane true () m)
  | endpoint {lane : UInt8} {m : Moment} (own : inj.node = inj.relay) (sent : m.sent = true) :
    Forwards inj (.selfSend inj.relay inj.datagram lane () m)

/-- The fleet stays as it is, and its links carry what they are given. Anyone may send anything. -/
def MeshEvent.Steady : MeshEvent Unit → Prop
  | .configure _ _ => False
  | .inject .. => True
  | .selfSend .. => True
  | .arrive _ _ _ m => m.sent = true
  | .lose _ => False

namespace MeshState

section Steps

variable {st st' : MeshState} {view : Snapshot} {inj : Injection} {h : RoutedHeader} {goal : NodeId} {t : Nat}
  {e : MeshEvent Unit}

theorem exists_step_forwards (hnew : st.Unborn st.injected.length) (hfleet : RelayFleet st.relays view)
    (hsend : Sendable st.relays view inj h) (hdst : Destination st.relays view h.dstId goal) (he : e.Forwards inj) :
    ∃ after, relayMesh.step st e = some after ∧ after.relays = st.relays ∧
      after.injected = st.injected ++ [inj] ∧
      (after.HandedTo st.injected.length inj h.dstId ∨ after.Crossing st.injected.length inj goal) := by
  have hmem : inj.relay ∈ st.relays := by
    rcases hsend.source with attached | ⟨-, hmem⟩
    · exact hfleet.present inj.node inj.relay attached
    · exact hmem
  obtain ⟨r, hr⟩ := isSome_iff_exists.mp (mem_iff_isSome_getElem?.mp hmem)
  cases he with
  | @client lane m sent =>
    refine ⟨st.forwarded inj r true lane m, ?_, rfl, rfl, forwarded_frame hnew hfleet hsend hdst hr sent⟩
    change st.step byTables (.inject inj.relay inj.node inj.datagram lane true () m) = _
    simp only [step, hr]
    rfl
  | @endpoint lane m own sent =>
    refine ⟨st.forwarded inj r false lane m, ?_, rfl, rfl, forwarded_frame hnew hfleet hsend hdst hr sent⟩
    change st.step byTables (.selfSend inj.relay inj.datagram lane () m) = _
    have hid : r.net.myNodeId = inj.node := (hfleet.ids inj.relay r hr).trans own.symm
    have hsome : (parse inj.datagram).isNone ≠ true := by simp [hsend.parsed]
    simp only [step, hr, bind_eq_bind, bind_some, selfSendBy, if_neg hsome, hid]
    rfl

theorem steady_step (hlt : t < st.injected.length) (hfleet : RelayFleet st.relays view)
    (hsend : Sendable st.relays view inj h) (hdst : Destination st.relays view h.dstId goal)
    (hframe : st.HandedTo t inj h.dstId ∨ st.Crossing t inj goal) (he : e.Steady)
    (hs : relayMesh.step st e = some st') :
    st'.relays = st.relays ∧ t < st'.injected.length ∧
      (st'.HandedTo t inj h.dstId ∨ st'.Crossing t inj goal) := by
  have hother (other : Injection) : (st.enter other).HandedTo t inj h.dstId ∨ (st.enter other).Crossing t inj goal :=
    hframe.imp (fun hhanded => { hhanded with })
      (fun hcross => { hcross with })
  have hnumber : some st.injected.length ≠ some t := by
    rw [ne_eq, some.injEq]
    omega
  have hgrown : t < (st.injected ++ [inj]).length := by
    rw [List.length_append]
    omega
  cases e with
  | configure relay r | lose x => exact absurd he id
  | inject relay node datagram lane allowed choice m =>
    obtain ⟨r, -, hs⟩ := bind_eq_some_iff.mp hs
    cases hs
    obtain ⟨cs, ds, ho⟩ := outcome_forwardLimitedBy r.net.tables.route r.chaosOff (.client node) datagram lane
      allowed m
    exact ⟨rfl, by simpa [absorb, enter] using hgrown, (hother _).imp (fun hold => hold.absorb_other ho.passes hnumber)
      (fun hold => hold.absorb_other ho.passes hnumber)⟩
  | selfSend relay datagram lane choice m =>
    obtain ⟨r, -, hs⟩ := bind_eq_some_iff.mp hs
    cases hs
    obtain ⟨cs, ds, ho⟩ := outcome_selfSendBy r.net.tables.route r.chaosOff datagram lane m
    exact ⟨rfl, by simpa [absorb, enter] using hgrown, (hother _).imp (fun hold => hold.absorb_other ho.passes hnumber)
      (fun hold => hold.absorb_other ho.passes hnumber)⟩
  | arrive x allowed choice m =>
    have hs' : st.step byTables (.arrive x allowed choice m) = some st' := hs
    simp only [step] at hs'
    split_ifs at hs' with hx
    obtain ⟨r, -, hs'⟩ := bind_eq_some_iff.mp hs'
    cases hs'
    refine ⟨rfl, hlt, ?_⟩
    by_cases ht : x.frame = some t
    · rcases hframe with hhanded | hcross
      · have := inFlight_pos hx ht
        have := hhanded.landed
        omega
      · obtain ⟨after, hafter, hhanded⟩ := hcross.arrive hfleet hsend hdst hx ht allowed he
        exact .inl (some.inj (hafter.symm.trans hs) ▸ hhanded)
    · obtain ⟨cs, ds, ho⟩ := outcome_meshReceiveBy r.net.tables.route r.chaosOff x.sender x.datagram x.lane
        allowed m
      exact hframe.imp (fun hold => (hold.takeOff hx).absorb_other ho.passes ht)
        (fun hold => (hold.takeOff_other hx ht).absorb_other ho.passes ht)

end Steps

end MeshState

/-- A frame sent in a fleet in line with a view reaches its destination, once, and nobody else, with only
its hop byte changed. As long as it has not, it is on one link, and its arrival hands it over. -/
theorem forwarding_complete {st : MeshState} {view : Snapshot} {inj : Injection} {h : RoutedHeader}
    {e : MeshEvent Unit} (hreach : relayMesh.Reachable st) (hfleet : RelayFleet st.relays view)
    (hsend : Sendable st.relays view inj h) (he : e.Forwards inj) :
    ∃ entered, relayMesh.step st e = some entered ∧ entered.injected = st.injected ++ [inj] ∧
      ∀ es after, relayMesh.RunWith (fun _ e => e.Steady) entered es after →
        after.HandedTo st.injected.length inj h.dstId ∨
          after.inFlight st.injected.length = 1 ∧ after.deliveries st.injected.length = 0 ∧
            ∀ x ∈ after.flight, x.frame = some st.injected.length → ∀ allowed m, m.sent = true →
              ∃ last, relayMesh.step after (.arrive x allowed () m) = some last ∧
                last.HandedTo st.injected.length inj h.dstId := by
  obtain ⟨goal, hdst⟩ := hsend.destination
  have hnew := (reachable_mesh_inv hreach).unborn _ (Nat.le_refl _)
  obtain ⟨entered, hstep, hrelays, hinjected, hframe⟩ :=
    exists_step_forwards hnew hfleet hsend hdst he
  refine ⟨entered, hstep, hinjected, fun es after hrun => ?_⟩
  have hlt : st.injected.length < entered.injected.length := by simp [hinjected]
  -- The fleet and the number of the frame stay, and with them where the frame can be.
  have hafter := hrun.invariant (P := fun s => s.relays = st.relays ∧ st.injected.length < s.injected.length ∧
      (s.HandedTo st.injected.length inj h.dstId ∨ s.Crossing st.injected.length inj goal))
    (fun s e s' hs hsteady hstep => by
      obtain ⟨hsame, hborn, hplace⟩ := hs
      obtain ⟨hkept, hborn', hplace'⟩ := steady_step hborn (hsame ▸ hfleet) (hsame ▸ hsend)
        (hsame ▸ hdst) hplace hsteady hstep
      exact ⟨hkept.trans hsame, hborn', hplace'⟩)
    ⟨hrelays, hlt, hframe⟩
  obtain ⟨hsame, -, hhanded | hcross⟩ := hafter
  · exact .inl hhanded
  · exact .inr ⟨hcross.single, hcross.undelivered, fun x hx ht allowed m hsent =>
      hcross.arrive (hsame ▸ hfleet) (hsame ▸ hsend) (hsame ▸ hdst) hx ht allowed hsent⟩

namespace FleetExample

def twoClients : Snapshot where
  gen := 1
  members := []
  attachments := [⟨10, 1⟩, ⟨20, 2⟩]
  relays := []
  mtu := ⟨1400, "relay"⟩
  keys := []
  reservedPrefixes := []

/-- Relay `me`, in line with the view. -/
def relay (me peer here : NodeId) : HonestRelay where
  net := reconcile
    { tables := ((Tables.new me).setLocal here true).setMesh peer true
      clients := ofList [(here, ())]
      meshSessions := ofList [(peer, ())] } 0 twoClients
  chaosOff := rfl

def start : MeshState where
  relays := (empty.insert 1 (relay 1 2 10)).insert 2 (relay 2 1 20)

theorem relay_cases {id : NodeId} {r : HonestRelay} (h : start.relays[id]? = some r) :
    id = 1 ∧ r = relay 1 2 10 ∨ id = 2 ∧ r = relay 2 1 20 := by
  simp only [start, getElem?_insert, Nat.compare_eq_eq] at h
  split_ifs at h with htwo hone
  · exact .inr ⟨htwo.symm, (some.inj h).symm⟩
  · exact .inl ⟨hone.symm, (some.inj h).symm⟩
  · simp at h

theorem mem_relays (id : NodeId) : id ∈ start.relays ↔ id = 2 ∨ id = 1 := by
  simp [start, @eq_comm _ id]

theorem attached_cases {node at_ : NodeId} (h : Attached start.relays twoClients node at_) :
    node = 10 ∧ at_ = 1 ∨ node = 20 ∧ at_ = 2 := by
  have hlisted := h.listed
  simp only [Snapshot.relayOf, twoClients, List.findRev?] at hlisted
  by_cases htwenty : node = 20
  · subst htwenty
    exact .inr ⟨rfl, by simpa [eq_comm] using hlisted⟩
  · by_cases hten : node = 10
    · subst hten
      exact .inl ⟨rfl, by simpa [eq_comm] using hlisted⟩
    · simp [Ne.symm htwenty, Ne.symm hten] at hlisted

theorem mem_sessions (peer node : NodeId) :
    node ∈ (ofList [(peer, ())] : Std.ExtTreeMap NodeId Unit) ↔ node = peer := by
  simp [@eq_comm _ node]

theorem mem_mesh (me peer here node : NodeId) : node ∈ (relay me peer here).net.tables.mesh ↔ node = peer := by
  simp [relay, reconcile, Tables.replaceAttachments, Tables.setMesh, Tables.setLocal, Tables.new,
    @eq_comm _ node]

theorem fleet : RelayFleet start.relays twoClients where
  ids id r hr := by
    rcases relay_cases hr with ⟨rfl, rfl⟩ | ⟨rfl, rfl⟩ <;> rfl
  reconciled id r hr := by
    rcases relay_cases hr with ⟨rfl, rfl⟩ | ⟨rfl, rfl⟩ <;> exact ⟨_, 0, rfl⟩
  present node at_ h := by
    rw [mem_relays]
    rcases attached_cases h with ⟨-, rfl⟩ | ⟨-, rfl⟩
    · exact .inr rfl
    · exact .inl rfl
  sessions id r hr node at_ h := by
    rcases relay_cases hr with ⟨rfl, rfl⟩ | ⟨rfl, rfl⟩ <;>
      rcases attached_cases h with ⟨rfl, rfl⟩ | ⟨rfl, rfl⟩ <;> decide +kernel
  links id r hr peer := by
    have hother {me other : NodeId} (hne : other ≠ me) : peer = other ↔ (peer = other ∨ peer = me) ∧ peer ≠ me := by
      grind
    rw [mem_relays]
    rcases relay_cases hr with ⟨rfl, rfl⟩ | ⟨rfl, rfl⟩
    · rw [mem_mesh]
      exact ⟨hother (by decide), (mem_sessions 2 peer).trans (hother (by decide))⟩
    · rw [mem_mesh, or_comm]
      exact ⟨hother (by decide), (mem_sessions 1 peer).trans (hother (by decide))⟩
  roles id r hr peer hpeer := by
    rw [mem_relays] at hpeer
    rcases relay_cases hr with ⟨rfl, rfl⟩ | ⟨rfl, rfl⟩ <;> rcases hpeer with rfl | rfl <;> decide +kernel

def greeting : Injection where
  relay := 1
  node := 10
  datagram := (new tData 10 20 0).write

def greetingHeader : RoutedHeader := new tData 10 20 0

theorem attached_ten : Attached start.relays twoClients 10 1 :=
  ⟨by decide, fun hmem => by simpa using (mem_relays 10).mp hmem⟩

theorem attached_twenty : Attached start.relays twoClients 20 2 :=
  ⟨by decide, fun hmem => by simpa using (mem_relays 20).mp hmem⟩

theorem sendable : Sendable start.relays twoClients greeting greetingHeader where
  parsed := by decide
  own := rfl
  fresh := rfl
  source := .inl attached_ten
  destination := ⟨2, .client attached_twenty⟩
  size id r hr := by
    rcases relay_cases hr with ⟨rfl, rfl⟩ | ⟨rfl, rfl⟩ <;> exact .inr (by decide)

def sent : Moment := ⟨true, true, 0⟩

def greets : MeshEvent Unit := .inject 1 10 greeting.datagram 0 true () sent

theorem greets_forwards : greets.Forwards greeting := .client rfl

def underway : Transit := ⟨some 0, 1, 2, greeting.onward, 0⟩

end FleetExample

open FleetExample in
/-- Client 10 at relay 1 writes to client 20 at relay 2: the frame crosses the one link, and relay 2 hands it
over. -/
theorem forwarding_complete_across : ∃ entered last, relayMesh.step start greets = some entered ∧
    relayMesh.step entered (.arrive underway true () sent) = some last ∧ last.HandedTo 0 greeting 20 := by
  have hinit : relayMesh.Initial start := ⟨rfl, rfl, rfl, rfl, rfl⟩
  obtain ⟨entered, hstep, -, hrun⟩ := forwarding_complete (.of_initial hinit) fleet sendable greets_forwards
  have hsnap : (relayMesh.step start greets).map (fun s => (s.deliveries 0, s.flight)) = some (0, [underway]) := by
    decide
  rw [hstep, map_some, some.injEq, Prod.mk.injEq] at hsnap
  rcases hrun [] entered .nil with hhanded | ⟨-, -, harrive⟩
  · exact absurd (hhanded.once.symm.trans hsnap.1) (by decide)
  · obtain ⟨last, hlast, hhanded⟩ := harrive underway (hsnap.2 ▸ List.mem_singleton_self _) rfl true sent rfl
    exact ⟨entered, last, hstep, hlast, hhanded⟩

end Nqvpn
