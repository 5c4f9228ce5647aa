import Nqvpn.Frame
import Std.Data.ExtTreeMap.Lemmas

/-!
# The relay data plane

The forwarding tables of one relay, the routing decision, and what a relay does
with one datagram. The environment of a call is explicit: whether the chosen
channel took the datagram, and the reading of the fault-injection counter. The
result is the list of effects in the order the relay has them.
-/

namespace Nqvpn

open RoutedHeader

/-- Where a datagram goes next. -/
inductive Route
  | toLocal (node : NodeId)
  | mesh (relay : NodeId)
  | me
  | drop (reason : Decision)
deriving DecidableEq, Repr

def Route.decision : Route → Decision
  | toLocal _ => .deliverLocal
  | mesh _ => .forwardMesh
  | me => .terminateHere
  | drop d => d

/-- Where a datagram came from: a client session, authenticated as a node, or a
peer relay of the mesh. -/
inductive Origin
  | client (node : NodeId)
  | relay (peer : NodeId)
deriving DecidableEq, Repr

structure Tables where
  myNodeId : NodeId
  /-- Client sessions attached here. -/
  localNodes : Std.ExtTreeMap NodeId Unit := ∅
  /-- Which relay holds a node, as the coordinator says. -/
  attachments : Std.ExtTreeMap NodeId NodeId := ∅
  /-- Live mesh sessions. -/
  mesh : Std.ExtTreeMap NodeId Unit := ∅

namespace Tables

def new (myNodeId : NodeId) : Tables := { myNodeId }

variable (t : Tables)

def setLocal (node : NodeId) (present : Bool) : Tables :=
  { t with localNodes := if present then t.localNodes.insert node () else t.localNodes.erase node }

def setMesh (relay : NodeId) (present : Bool) : Tables :=
  { t with mesh := if present then t.mesh.insert relay () else t.mesh.erase relay }

def replaceAttachments (entries : List (NodeId × NodeId)) : Tables :=
  { t with attachments := Std.ExtTreeMap.ofList entries }

def srcSpoofed (origin : Origin) (srcId : NodeId) : Bool :=
  match origin with
  | .client sessionNode => sessionNode != srcId
  | .relay relay => srcId != relay && t.attachments[srcId]? != some relay

/-- The whole forwarding rule. A datagram from the mesh is never sent into the
mesh again. -/
def route (origin : Origin) (srcId dstId : NodeId) : Route :=
  if t.srcSpoofed origin srcId then .drop .dropSrcSpoofed
  else if dstId = t.myNodeId then .me
  else if dstId ∈ t.localNodes then .toLocal dstId
  else
    match origin with
    | .relay _ => .drop .dropNoSecondHop
    | .client _ =>
      if dstId ∈ t.mesh then .mesh dstId
      else
        match t.attachments[dstId]? with
        | some relay => if relay ∈ t.mesh then .mesh relay else .drop .dropMeshLinkDown
        | none => .drop .dropDstUnknown

theorem route_relay_ne_mesh (peer srcId dstId relay : NodeId) :
    t.route (.relay peer) srcId dstId ≠ .mesh relay := by
  unfold route
  split_ifs <;> simp

/-- A client's frame leaves the rule with a destination only under the node id
its session authenticated as. -/
theorem route_client_src {t : Tables} {node srcId dstId : NodeId} {r : Route}
    (h : t.route (.client node) srcId dstId = r) (hr : ∀ d, r ≠ .drop d) : srcId = node := by
  by_contra hne
  have hspoof : t.srcSpoofed (.client node) srcId := by
    simpa [srcSpoofed] using fun e => hne e.symm
  rw [route, if_pos hspoof] at h
  exact hr _ h.symm

end Tables

/-- Fault injection for tests: what a misbehaving relay does to what it forwards. -/
inductive Chaos
  | duplicate
  | corrupt (n : Nat)
  | drop (n : Nat)
deriving DecidableEq, Repr

/-- The part of a relay's network the data plane reads. -/
structure RelayNet where
  tables : Tables
  clients : Std.ExtTreeMap NodeId Unit := ∅
  meshSessions : Std.ExtTreeMap NodeId Unit := ∅
  /-- The relay has an endpoint of its own. -/
  endpoint : Bool := false
  chaos : Option Chaos := none
  /-- Largest datagram forwarded; 0 when no cap is known. -/
  maxFrame : Nat := 0

/-- What one call takes from its environment. -/
structure Moment where
  /-- The channel accepts what is sent on it. -/
  sent : Bool
  /-- It accepts the extra copy of a duplicating relay. -/
  extraSent : Bool
  chaosSeq : Nat
deriving DecidableEq, Repr

/-- What a relay does, in order. -/
inductive Effect
  | count (decision : Decision)
  | rx (peer : NodeId) (bytes : Nat)
  | tx (peer : NodeId) (bytes : Nat)
  | localSwitched (bytes : Nat)
  | terminated (bytes : Nat)
  /-- A frame goes out on a client's or a mesh peer's channel. -/
  | sendLocal (node : NodeId) (datagram : Datagram) (lane : UInt8)
  | sendMesh (relay : NodeId) (datagram : Datagram) (lane : UInt8)
  /-- A frame is handed to the relay's own endpoint. -/
  | deliver (datagram : Datagram)
  /-- A peer's trace note is passed to the client it is for, or to our endpoint. -/
  | passNote (node : NodeId) (datagram : Datagram)
  | deliverNote (datagram : Datagram)
  /-- Our own trace note goes back on the session the frame arrived on. -/
  | answerNote (datagram : Datagram)
deriving DecidableEq, Repr

namespace RelayNet

def myNodeId (net : RelayNet) : NodeId := net.tables.myNodeId

variable (rule : Origin → NodeId → NodeId → Route) (net : RelayNet) (origin : Origin)
  (datagram : Datagram) (arrivedOn : Bool)

def channelFor : Route → Bool
  | .toLocal id => id ∈ net.clients
  | .mesh id => id ∈ net.meshSessions
  | _ => false

/-- Answer a traced frame on the session it arrived on; for our own endpoint's
frames, to the endpoint. -/
def trace (net : RelayNet) (h : RoutedHeader) (hop : UInt8) (arrivedOn : Bool) (decision : Decision)
    (detail : Nat) : List Effect :=
  if !h.traced then []
  else
    let note := TraceNote.encode
      { origin := h.srcId, trace := h.trace, hop, relayId := net.myNodeId, decision, detail }
    if arrivedOn then [.answerNote note]
    else if net.endpoint then [.deliverNote note]
    else []

def relayNote : List Effect :=
  match origin, TraceNote.parse datagram with
  | .relay peer, some note =>
    if note.relayId ≠ peer then []
    else if note.origin = net.myNodeId then
      if net.endpoint then [.deliverNote datagram] else []
    else if net.channelFor (.toLocal note.origin) then [.passNote note.origin datagram]
    else []
  | _, _ => []

/-- What fault injection makes of a frame about to be sent; nothing if it is lost. -/
def applyChaos (m : Moment) (buf : Datagram) : Option Datagram :=
  match net.chaos with
  | some (.drop n) => if 0 < n ∧ m.chaosSeq % n = 0 then none else some buf
  | some (.corrupt n) =>
    if 0 < n ∧ m.chaosSeq % n = 0 then
      some (buf.modify (buf.length - 1) (· + (1 + UInt8.ofNat (net.myNodeId % 200))))
    else some buf
  | _ => some buf

def transmit (h : RoutedHeader) (hop : UInt8) (route : Route) (detail : NodeId) (buf : Datagram)
    (m : Moment) (send : Datagram → Effect) (counted : List Effect) : List Effect :=
  match net.applyChaos m buf with
  | none => []
  | some buf =>
    let failed := .count .dropSendFailed :: net.trace h hop arrivedOn .dropSendFailed detail
    if net.channelFor route then
      let extra := if net.chaos = some .duplicate ∧ m.extraSent then [send buf] else []
      extra ++
        if m.sent then send buf :: (counted ++ net.trace h hop arrivedOn route.decision detail)
        else failed
    else failed

def carry (h : RoutedHeader) (hop : UInt8) (route : Route) (buf : Datagram) (bytes : Nat)
    (lane : UInt8) (m : Moment) : List Effect :=
  match route with
  | .toLocal id =>
    net.transmit arrivedOn h hop route id buf m (.sendLocal id · lane)
      (match origin with
        | .client _ => [.localSwitched bytes]
        | .relay _ => [])
  | .mesh id =>
    net.transmit arrivedOn h hop route id buf m (.sendMesh id · lane) [.tx id bytes]
  | .me =>
    if net.endpoint then
      .terminated bytes ::
        (net.trace h hop arrivedOn .terminateHere net.myNodeId ++ [.deliver buf])
    else .count .dropNoEndpoint :: net.trace h hop arrivedOn .dropNoEndpoint 0
  | .drop d => net.trace h hop arrivedOn d 0

def forwardBy (datagram : Datagram) (lane : UInt8) (m : Moment) : List Effect :=
  let bytes := datagram.length
  let received : List Effect :=
    match origin with
    | .relay peer => [.rx peer bytes]
    | .client _ => []
  received ++
    if 0 < net.maxFrame ∧ net.maxFrame < bytes then [.count .dropMalformed]
    else if datagram.head? = some tTraceNote then net.relayNote origin datagram
    else
      match parse datagram with
      | none => [.count .dropMalformed]
      | some h =>
        match bumpHop datagram with
        | none => .count .dropTooManyHops :: net.trace h h.hop arrivedOn .dropTooManyHops 0
        | some (buf, hop) =>
          let route := rule origin h.srcId h.dstId
          .count route.decision :: net.carry origin arrivedOn h hop route buf bytes lane m

def forwardLimitedBy (lane : UInt8) (allowed : Bool) (m : Moment) : List Effect :=
  if allowed then net.forwardBy rule origin true datagram lane m else [.count .dropRateLimited]

def meshReceiveBy (peer : NodeId) (datagram : Datagram) (lane : UInt8) (allowed : Bool) (m : Moment) : List Effect :=
  if datagram.head? = some tTraceNote ∧ !allowed then []
  else net.forwardBy rule (.relay peer) true datagram lane m

def selfSendBy (lane : UInt8) (m : Moment) : List Effect :=
  if (parse datagram).isNone then []
  else net.forwardBy rule (.client net.myNodeId) false datagram lane m

def forward (net : RelayNet) : Origin → Bool → Datagram → UInt8 → Moment → List Effect :=
  net.forwardBy net.tables.route

end RelayNet

namespace Effect

def crossing : Effect → Option (NodeId × Datagram × UInt8)
  | sendMesh relay datagram lane => some (relay, datagram, lane)
  | _ => none

/-- The frame an effect hands to a member: an attached client, or the endpoint
of the relay `me`. -/
def delivery (me : NodeId) : Effect → Option (NodeId × Datagram)
  | sendLocal node datagram _ => some (node, datagram)
  | deliver datagram => some (me, datagram)
  | _ => none

end Effect

/-! ### What a call does with the frame itself -/

namespace RelayNet

variable (rule : Origin → NodeId → NodeId → Route) (net : RelayNet)

@[simp] theorem crossing_trace (h : RoutedHeader) (hop : UInt8) (arrivedOn : Bool) (d : Decision)
    (detail : Nat) : (net.trace h hop arrivedOn d detail).filterMap Effect.crossing = [] := by
  unfold trace
  split_ifs <;> rfl

@[simp] theorem delivery_trace (me : NodeId) (h : RoutedHeader) (hop : UInt8) (arrivedOn : Bool)
    (d : Decision) (detail : Nat) :
    (net.trace h hop arrivedOn d detail).filterMap (Effect.delivery me) = [] := by
  unfold trace
  split_ifs <;> rfl

theorem crossing_relayNote (origin : Origin) (datagram : Datagram) :
    (net.relayNote origin datagram).filterMap Effect.crossing = [] := by
  unfold relayNote
  split
  · split_ifs <;> rfl
  · rfl

theorem delivery_relayNote (me : NodeId) (origin : Origin) (datagram : Datagram) :
    (net.relayNote origin datagram).filterMap (Effect.delivery me) = [] := by
  unfold relayNote
  split
  · split_ifs <;> rfl
  · rfl

/-- The frame copies among the effects of one call. -/
structure Passes (effects : List Effect) (crossings : List (NodeId × Datagram × UInt8))
    (deliveries : List (NodeId × Datagram)) : Prop where
  crossing : effects.filterMap Effect.crossing = crossings
  delivery : effects.filterMap (Effect.delivery net.myNodeId) = deliveries

variable {net}

theorem Passes.nil : net.Passes [] [] [] := ⟨rfl, rfl⟩

variable {effects es : List Effect} {cs : List (NodeId × Datagram × UInt8)} {ds : List (NodeId × Datagram)}
  {origin : Origin} {datagram : Datagram}

theorem Passes.append {es' : List Effect} {cs' : List (NodeId × Datagram × UInt8)}
    {ds' : List (NodeId × Datagram)} (h : net.Passes es cs ds) (h' : net.Passes es' cs' ds') :
    net.Passes (es ++ es') (cs ++ cs') (ds ++ ds') :=
  ⟨by rw [List.filterMap_append, h.crossing, h'.crossing],
    by rw [List.filterMap_append, h.delivery, h'.delivery]⟩

theorem Passes.cons_silent {e : Effect} (h : net.Passes es cs ds) (hc : e.crossing = none)
    (hd : e.delivery net.myNodeId = none) : net.Passes (e :: es) cs ds :=
  ⟨by rw [List.filterMap_cons_none hc, h.crossing], by rw [List.filterMap_cons_none hd, h.delivery]⟩

variable (net)

theorem passes_trace (h : RoutedHeader) (hop : UInt8) (arrivedOn : Bool) (d : Decision)
    (detail : Nat) : net.Passes (net.trace h hop arrivedOn d detail) [] [] :=
  ⟨net.crossing_trace .., net.delivery_trace ..⟩

/-- What can become of a frame under a routing decision: nothing goes on, one
copy crosses a mesh link, or one copy reaches a member. -/
inductive Fate (route : Route) (buf : Datagram) (lane : UInt8) :
    List (NodeId × Datagram × UInt8) → List (NodeId × Datagram) → Prop
  | stopped : Fate route buf lane [] []
  | crossed (relay : NodeId) : route = .mesh relay → Fate route buf lane [(relay, buf, lane)] []
  | delivered (node : NodeId) :
      route = .toLocal node ∨ route = .me ∧ node = net.myNodeId →
      Fate route buf lane [] [(node, buf)]

variable {net}

theorem passes_transmit (hchaos : net.chaos = none) (arrivedOn : Bool) (h : RoutedHeader) (hop : UInt8)
    (route : Route) (detail : NodeId) (buf : Datagram) (m : Moment) (send : Datagram → Effect)
    {counted : List Effect} (hcounted : net.Passes counted [] []) (hsend : net.Passes [send buf] cs ds) :
    net.Passes (net.transmit arrivedOn h hop route detail buf m send counted) [] [] ∨
      net.Passes (net.transmit arrivedOn h hop route detail buf m send counted) cs ds := by
  have hnone : net.applyChaos m buf = some buf := by simp [applyChaos, hchaos]
  have hfailed : net.Passes (.count .dropSendFailed ::
      net.trace h hop arrivedOn .dropSendFailed detail) [] [] :=
    (net.passes_trace ..).cons_silent rfl rfl
  simp only [transmit, hnone, hchaos, reduceCtorEq, false_and, if_false, List.nil_append]
  split_ifs with hchan hsent
  · right
    simpa using hsend.append (hcounted.append (net.passes_trace h hop arrivedOn route.decision detail))
  · exact .inl hfailed
  · exact .inl hfailed

theorem passes_carry (hchaos : net.chaos = none) (origin : Origin) (arrivedOn : Bool)
    (h : RoutedHeader) (hop : UInt8) (route : Route) (buf : Datagram) (bytes : Nat) (lane : UInt8)
    (m : Moment) : ∃ cs ds, net.Fate route buf lane cs ds ∧
      net.Passes (net.carry origin arrivedOn h hop route buf bytes lane m) cs ds := by
  unfold carry
  split
  · rename_i id
    have hcounted : net.Passes (match origin with
        | .client _ => [.localSwitched bytes]
        | .relay _ => []) [] [] := by cases origin <;> exact ⟨rfl, rfl⟩
    have hsend : net.Passes [.sendLocal id buf lane] [] [(id, buf)] := ⟨rfl, rfl⟩
    rcases passes_transmit hchaos arrivedOn h hop (.toLocal id) id buf m (.sendLocal id · lane)
        hcounted hsend with hp | hp
    · exact ⟨_, _, .stopped, hp⟩
    · exact ⟨_, _, .delivered id (.inl rfl), hp⟩
  · rename_i id
    have hcounted : net.Passes [.tx id bytes] [] [] := ⟨rfl, rfl⟩
    have hsend : net.Passes [.sendMesh id buf lane] [(id, buf, lane)] [] := ⟨rfl, rfl⟩
    rcases passes_transmit hchaos arrivedOn h hop (.mesh id) id buf m (.sendMesh id · lane)
        hcounted hsend with hp | hp
    · exact ⟨_, _, .stopped, hp⟩
    · exact ⟨_, _, .crossed id rfl, hp⟩
  · split_ifs
    · refine ⟨_, _, .delivered net.myNodeId (.inr ⟨rfl, rfl⟩), Passes.cons_silent ?_ rfl rfl⟩
      have hdeliver : net.Passes [.deliver buf] [] [(net.myNodeId, buf)] := ⟨rfl, rfl⟩
      exact (net.passes_trace ..).append hdeliver
    · exact ⟨_, _, .stopped, (net.passes_trace ..).cons_silent rfl rfl⟩
  · exact ⟨_, _, .stopped, net.passes_trace ..⟩

/-- What one call does with its datagram: it passes on at most one copy, which
went through the hop guard and takes the route the rule gives for its header. -/
structure Outcome (net : RelayNet) (origin : Origin) (datagram : Datagram) (effects : List Effect)
    (cs : List (NodeId × Datagram × UInt8)) (ds : List (NodeId × Datagram)) : Prop where
  passes : net.Passes effects cs ds
  atMostOne : cs.length + ds.length ≤ 1
  crossing : ∀ c ∈ cs, ∃ h hop, parse datagram = some h ∧
    bumpHop datagram = some (c.2.1, hop) ∧ rule origin h.srcId h.dstId = .mesh c.1
  delivery : ∀ d ∈ ds, ∃ h hop, parse datagram = some h ∧
    bumpHop datagram = some (d.2, hop) ∧ (rule origin h.srcId h.dstId = .toLocal d.1 ∨
      rule origin h.srcId h.dstId = .me ∧ d.1 = net.myNodeId)

theorem Outcome.stopped (h : net.Passes effects [] []) : ∃ cs ds, Outcome rule net origin datagram effects cs ds :=
  ⟨[], [], h, by simp, by simp, by simp⟩

theorem Outcome.of_fate {buf : Datagram} {hop lane : UInt8} {h : RoutedHeader}
    (hparse : parse datagram = some h) (hbump : bumpHop datagram = some (buf, hop))
    (hfate : net.Fate (rule origin h.srcId h.dstId) buf lane cs ds) (hp : net.Passes effects cs ds) : Outcome rule net origin datagram effects cs ds := by
  cases hfate with
  | stopped => exact ⟨hp, by simp, by simp, by simp⟩
  | crossed relay hroute =>
    refine ⟨hp, by simp, fun c hc => ?_, by simp⟩
    obtain rfl := List.mem_singleton.mp hc
    exact ⟨h, hop, hparse, hbump, hroute⟩
  | delivered node hroute =>
    refine ⟨hp, by simp, by simp, fun d hd => ?_⟩
    obtain rfl := List.mem_singleton.mp hd
    exact ⟨h, hop, hparse, hbump, hroute⟩

theorem outcome_forwardBy (hchaos : net.chaos = none) (origin : Origin) (arrivedOn : Bool)
    (datagram : Datagram) (lane : UInt8) (m : Moment) :
    ∃ cs ds, Outcome rule net origin datagram
      (net.forwardBy rule origin arrivedOn datagram lane m) cs ds := by
  have hreceived : net.Passes (match origin with
      | .relay peer => [.rx peer datagram.length]
      | .client _ => []) [] [] := by cases origin <;> exact ⟨rfl, rfl⟩
  unfold forwardBy
  dsimp only
  split_ifs
  · exact Outcome.stopped rule (hreceived.append (Passes.nil.cons_silent rfl rfl))
  · exact Outcome.stopped rule (hreceived.append ⟨net.crossing_relayNote .., net.delivery_relayNote ..⟩)
  · cases hparse : parse datagram with
    | none => exact Outcome.stopped rule (hreceived.append (Passes.nil.cons_silent rfl rfl))
    | some h =>
      cases hbump : bumpHop datagram with
      | none => exact Outcome.stopped rule (hreceived.append ((net.passes_trace ..).cons_silent rfl rfl))
      | some next =>
        obtain ⟨cs, ds, hfate, hcarry⟩ := passes_carry hchaos origin arrivedOn h next.2
          (rule origin h.srcId h.dstId) next.1 datagram.length lane m
        exact ⟨cs, ds, .of_fate rule hparse hbump hfate
          (hreceived.append (hcarry.cons_silent rfl rfl))⟩

theorem outcome_forwardLimitedBy (hchaos : net.chaos = none) (origin : Origin)
    (datagram : Datagram) (lane : UInt8) (allowed : Bool) (m : Moment) :
    ∃ cs ds, Outcome rule net origin datagram
      (net.forwardLimitedBy rule origin datagram lane allowed m) cs ds := by
  unfold forwardLimitedBy
  split_ifs
  · exact outcome_forwardBy rule hchaos ..
  · exact Outcome.stopped rule ⟨rfl, rfl⟩

theorem outcome_meshReceiveBy (hchaos : net.chaos = none) (peer : NodeId) (datagram : Datagram)
    (lane : UInt8) (allowed : Bool) (m : Moment) :
    ∃ cs ds, Outcome rule net (.relay peer) datagram
      (net.meshReceiveBy rule peer datagram lane allowed m) cs ds := by
  unfold meshReceiveBy
  split_ifs
  · exact Outcome.stopped rule Passes.nil
  · exact outcome_forwardBy rule hchaos ..

theorem outcome_selfSendBy (hchaos : net.chaos = none) (datagram : Datagram) (lane : UInt8)
    (m : Moment) :
    ∃ cs ds, Outcome rule net (.client net.myNodeId) datagram
      (net.selfSendBy rule datagram lane m) cs ds := by
  unfold selfSendBy
  split_ifs
  · exact Outcome.stopped rule Passes.nil
  · exact outcome_forwardBy rule hchaos ..

end RelayNet

end Nqvpn
