import Nqvpn.SessionTable

/-!
# The endpoint engine

Packets from the device are matched to their owner, sealed and sent; frames from
the network are decrypted, filtered and written to the device; handshakes are
started, answered and finished in between. One call is one step here: it returns
the engine it leaves behind and the effects it has, in order. What it reads from
outside (clock, randomness) is an argument.
-/

namespace Nqvpn

/-- How keys and cryptographic messages are written as text and bytes. -/
structure EngineCodec where
  base64 : String → Option (List UInt8)
  message : MessageCodec

inductive EngineCounter
  | sent
  | received
  | handshakesStarted
  | handshakesCompleted
  | handshakesYielded
  | dropNoRoute
  | dropNoSession
  | dropQueueFull
  | dropSealFailed
  | dropReplay
  | dropIngress
  | dropOversize
  | dropKeyMismatch
  | dropStaleHandshake
  | dropMalformed
  | handshakeTimeouts
  | rekeysCompleted
  | sessionsDroppedByView
  | loopedBack
  | traceNotes
deriving DecidableEq, Repr

/-- A frame the engine hands to its uplink. -/
structure OutFrame where
  header : RoutedHeader
  ctr : Option Nat
  message : Message
deriving DecidableEq, Repr

def OutFrame.bytes (codec : MessageCodec) (f : OutFrame) : Datagram :=
  f.header.write ++ (f.ctr.elim [] (BigEndian.toBytes 8) ++ codec.write f.message)

inductive EngineEffect
  | send (frame : OutFrame) (lane : UInt8)
  /-- Sent, and counted as `sent` if the uplink takes it. -/
  | sendCounted (frame : OutFrame) (lane : UInt8)
  | tunWrite (packet : Packet)
  | count (c : EngineCounter)
deriving DecidableEq, Repr

def laneDefault : UInt8 := 0
def traceNotesKept : Nat := 256

/-- What one call reads from outside: seconds, the clock for a first handshake
message, and a fresh ephemeral key. -/
structure Reading where
  now : Nat
  clock : Tai64n
  ephemeral : Nat
deriving DecidableEq, Repr

structure Engine where
  myNodeId : NodeId
  networkUuid : String
  key : Key
  peers : PeerTable
  sessions : SessionTable
  mtu : Nat
  lanes : UInt8
  traceTarget : Option IpAddr
  traceNotes : List TraceNote
  /-- The last timestamp put into a first handshake message. -/
  lastTs : Tai64n

namespace Engine

def new (myNodeId : NodeId) (networkUuid : String) (key : Key) (peers : PeerTable) (mtu : Nat)
    (lanes : UInt8) : Engine :=
  { myNodeId, networkUuid, key, peers, sessions := .default, mtu, lanes, traceTarget := none,
    traceNotes := [], lastTs := .zero }

variable (codec : EngineCodec)
variable (e : Engine) (peer : NodeId) (members : List PeerInfo) (msg : Option Message) (r : Reading)

def nextTs (clock : Tai64n) : Tai64n := if clock ≤ e.lastTs then e.lastTs.succ else clock

def setMtu (mtu : Nat) : Engine := { e with mtu }

def setTrace (target : Option IpAddr) : Engine :=
  { e with traceTarget := target, traceNotes := [] }

def relogged : List NodeId :=
  (members.filter fun m =>
    e.peers.peers[m.nodeId]?.any fun old => old.loginGen ≠ m.loginGen || old.pubkey ≠ m.pubkey).map
    (·.nodeId)

def published : Std.ExtTreeMap NodeId (Option Key) :=
  KeyedList.collect PeerInfo.nodeId (fun m => decodePubkey codec.base64 m.pubkey)
    (members.filter (·.nodeId ≠ e.myNodeId))

/-- Apply the published membership: the peer table is replaced, and every session,
queue and watermark that no longer matches it is dropped. -/
def syncPeers : Engine × List EngineEffect :=
  let forgotten := (e.relogged members).foldl SessionTable.forgetHandshakeTs e.sessions
  let synced := forgotten.syncView (e.published codec members)
  ({ e with peers := e.peers.replaceAll members, sessions := synced.1 },
    synced.2.map fun _ => .count .sessionsDroppedByView)

def frame (kind : UInt8) (dst : NodeId) (message : Message) (ctr : Option Nat) (packet : Packet) : OutFrame :=
  let h := RoutedHeader.new kind e.myNodeId dst packet.traceId
  let tagged : Bool := e.traceTarget.any fun target =>
    packet.parseInnerAddrs.any fun addrs => addrs.2 = target
  { header := if tagged then { h with flags := h.flags ||| flagTrace } else h, ctr, message }

def dataFrame (dst : NodeId) (sealed : SealedPacket) (ctr : Nat) (packet : Packet) :
    OutFrame :=
  e.frame tData dst (.sealed sealed) (some ctr) packet

def keepalive : Engine × List EngineEffect :=
  match (e.sessions.get peer).bind (·.sealPacket []) with
  | none => (e, [])
  | some (s, ctr, c) =>
    ({ e with sessions := e.sessions.put peer s },
      [.send (e.dataFrame peer c ctr []) laneDefault])

def startRekey : Engine × Option Initiation :=
  match e.peers.pubkeyOf codec.base64 peer with
  | none => (e, none)
  | some pk =>
    let ts := e.nextTs r.clock
    let started := e.sessions.initiateRekey e.key peer pk e.networkUuid e.myNodeId r.now ts r.ephemeral
    ({ e with sessions := started.1, lastTs := ts }, some started.2)

def startedEffects (packet : Packet) :
    Option Initiation → List EngineEffect
  | none => []
  | some first =>
    [.count .handshakesStarted,
     .send (e.frame tHandshake peer (.initiation first) none packet) laneDefault]

def sendOn (owner : NodeId) (s : PairSession) (packet : Packet) (r : Reading) :
    Engine × List EngineEffect :=
  let sealed := s.sealPacket packet
  let sessions := match sealed with
    | some (s', _, _) => e.sessions.put owner s'
    | none => e.sessions
  let sent := { e with sessions := sessions.noteSent owner r.now }
  let rekeyed := if sent.sessions.rekeyDue owner r.now then sent.startRekey codec owner r
    else (sent, none)
  let effects : List EngineEffect := match sealed with
    | some (_, ctr, c) => [.sendCounted (e.dataFrame owner c ctr packet) (packet.laneFor e.lanes)]
    | none => [.count .dropSealFailed]
  (rekeyed.1, effects ++ e.startedEffects owner packet rekeyed.2)

def queueFor (owner : NodeId) (packet : Packet) (r : Reading) :
    Engine × List EngineEffect :=
  let queued := e.sessions.queue owner packet
  let full : List EngineEffect := if queued.2 then [] else [.count .dropQueueFull]
  if e.sessions.has owner then ({ e with sessions := queued.1 }, full)
  else
    match e.peers.pubkeyOf codec.base64 owner with
    | none =>
      -- No handshake can ever drain a queue for this peer.
      ({ e with sessions := (e.sessions.takePending owner).1 }, [.count .dropNoSession])
    | some pk =>
      let ts := e.nextTs r.clock
      let started :=
        queued.1.initiateAt e.key owner pk e.networkUuid e.myNodeId r.now ts r.ephemeral
      ({ e with sessions := started.1, lastTs := ts },
        full ++ e.startedEffects owner packet (some started.2))

def outbound (packet : Packet) (r : Reading) : Engine × List EngineEffect :=
  if e.mtu < packet.length then (e, [.count .dropOversize])
  else
    match packet.parseInnerAddrs with
    | none => (e, [.count .dropMalformed])
    | some (_, dst) =>
      -- Our own host addresses never go on the wire.
      if e.peers.isMineHost dst then (e, [.count .loopedBack, .tunWrite packet])
      else
        match e.peers.ownerOf dst with
        | none => (e, [.count .dropNoRoute])
        | some owner =>
          match (e.sessions.get owner).filter (·.isReady) with
          | some s => e.sendOn codec owner s packet r
          | none => e.queueFor codec owner packet r

def sealAll (e : Engine) (peer : NodeId) : PairSession → List Packet → PairSession × List EngineEffect
  | s, [] => (s, [])
  | s, packet :: rest =>
    match s.sealPacket packet with
    | none => e.sealAll peer s rest
    | some (s', ctr, c) =>
      let more := e.sealAll peer s' rest
      (more.1, .sendCounted (e.dataFrame peer c ctr packet) (packet.laneFor e.lanes) :: more.2)

def flushPending (now : Nat) : Engine × List EngineEffect :=
  if e.sessions.isReady peer then
    let taken := e.sessions.takePending peer
    match taken.1.get peer with
    | none => ({ e with sessions := taken.1 }, [])
    | some s =>
      let flushed := e.sealAll peer s taken.2
      let sessions := taken.1.put peer flushed.1
      ({ e with sessions := if flushed.2.isEmpty then sessions else sessions.noteSent peer now },
        flushed.2)
  else (e, [])

/-- Install a session we answered, and send what waited for one. `carried` are
packets of a handshake of ours that gave way to it. -/
def install (e : Engine) (peer : NodeId) (s : PairSession) (carried : List Packet) (now : Nat) :
    Engine × List EngineEffect :=
  let installed := e.sessions.installResponder peer s
  let requeued := carried.foldl (fun t p => (t.queue peer p).1) installed
  { e with sessions := requeued }.flushPending peer now

def answer (carried : List Packet) (r : Reading) :
    Engine × List EngineEffect :=
  match PairSession.respond e.key peer e.networkUuid e.myNodeId msg r.now r.ephemeral with
  | none => (e, [.count .dropSealFailed])
  | some (s, reply, ts) =>
    if e.peers.pubkeyOf codec.base64 peer = some s.peerStatic then
      -- The watermark moves only once the static key is verified.
      match e.sessions.acceptHandshakeTs peer s.peerStatic ts with
      | none => (e, [.count .dropStaleHandshake])
      | some accepted =>
        let installed := { e with sessions := accepted }.install peer s carried r.now
        (installed.1, .count .handshakesCompleted ::
          .send (e.frame tHandshake peer (.reply reply) none []) laneDefault :: installed.2)
    else (e, [.count .dropKeyMismatch])

def onFirstHandshake :
    Engine × List EngineEffect :=
  match e.sessions.firstInFlight peer with
  | none => e.answer codec peer msg [] r
  | some s =>
    -- An in-flight initiator session expects the responder's reply.
    let finished := s.finish msg
    if finished.2 && finished.1.isReady then
      let flushed := { e with sessions := e.sessions.put peer finished.1 }.flushPending peer r.now
      (flushed.1, .count .handshakesCompleted :: flushed.2)
    else if e.myNodeId < peer then
      -- Not a reply: both sides initiated at once, and the lower id yields.
      let taken := e.sessions.takePending peer
      let answered := { e with sessions := taken.1.remove peer }.answer codec peer msg taken.2 r
      (answered.1, .count .handshakesYielded :: answered.2)
    else (e, [])

def onHandshake :
    Engine × List EngineEffect :=
  match e.sessions.nextInFlight peer with
  | none => e.onFirstHandshake codec peer msg r
  | some n =>
    -- Our rekey in flight expects the responder's reply.
    let finished := n.finish msg
    if finished.2 && finished.1.isReady then
      let promoted := { e with
        sessions := (e.sessions.putNext peer finished.1).promote peer r.now }
      -- Tell the responder at once that we hold the new keys.
      let alive := promoted.keepalive peer
      let noted := { alive.1 with sessions := alive.1.sessions.noteSent peer r.now }
      let flushed := noted.flushPending peer r.now
      (flushed.1, [.count .handshakesCompleted, .count .rekeysCompleted] ++ flushed.2 ++ alive.2)
    else if e.myNodeId < peer then
      -- Not a reply: both sides started a rekey at once, and the lower id yields.
      let yielded := { e with sessions := e.sessions.dropNext peer }.onFirstHandshake codec peer msg r
      (yielded.1, .count .handshakesYielded :: yielded.2)
    else (e, [])

def acknowledge (src : NodeId) (now : Nat) : Engine × List EngineEffect :=
  if e.sessions.keepaliveDue src now then
    { e with sessions := e.sessions.noteSent src now }.keepalive src
  else (e, [])

/-- A sealed frame from `src`. -/
def onData (src : NodeId) (ctr : Nat) (msg : Option Message) (now : Nat) :
    Engine × List EngineEffect :=
  match e.sessions.unsealFrame src ctr msg now with
  | .error (.replay _) => (e, [.count .dropReplay])
  | .error (.noSession _) => (e, [.count .dropNoSession])
  | .error .noise => (e, [.count .dropSealFailed])
  | .ok (sessions, inner) =>
    let opened := { e with sessions }
    -- An empty payload is a keepalive: nothing to deliver.
    if inner.isEmpty then (opened, [])
    else
      let replied := opened.acknowledge src now
      match e.peers.checkIngress src inner with
      | .accept => (replied.1, replied.2 ++ [.count .received, .tunWrite inner])
      | .drop _ => (replied.1, replied.2 ++ [.count .dropIngress])

def takeNote (note : TraceNote) : Engine :=
  let kept := if traceNotesKept ≤ e.traceNotes.length then e.traceNotes.drop 1 else e.traceNotes
  { e with traceNotes := kept ++ [note] }

def messageIn (datagram : Datagram) : Option Message :=
  (RoutedHeader.parse datagram).bind fun h =>
    let body := datagram.drop routedHeaderLen
    codec.message.read (if h.kind = tHandshake then body else body.drop 8)

def inbound (datagram : Datagram) (r : Reading) : Engine × List EngineEffect :=
  if datagram.head? = some tTraceNote then
    match TraceNote.parse datagram with
    | none => (e, [])
    | some note => (e.takeNote note, [.count .traceNotes])
  else
    match RoutedHeader.parse datagram with
    | none => (e, [.count .dropMalformed])
    | some h =>
      if h.dstId ≠ e.myNodeId then (e, [.count .dropMalformed])
      else
        let body := datagram.drop routedHeaderLen
        if h.kind = tHandshake then e.onHandshake codec h.srcId (codec.message.read body) r
        else if body.length < 8 then (e, [.count .dropMalformed])
        else e.onData h.srcId (BigEndian.ofBytes (body.take 8)) (codec.message.read (body.drop 8)) r.now

def expireSessions (now : Nat) : Engine × List EngineEffect :=
  let expired := e.sessions.expire now
  ({ e with sessions := expired.1 }, expired.2.map fun _ => .count .handshakeTimeouts)

end Engine

/-! ### The two kinds of endpoint -/

/-- A client reconciles a view: peers and sessions, the network's MTU, and the exits
a route-all client has picked. -/
def Engine.reconcileView (codec : EngineCodec) (e : Engine) (view : Snapshot)
    (exits : List (IpNet × NodeId)) : Engine × List EngineEffect :=
  let synced := e.syncPeers codec view.members
  let sized := if view.mtu.mtu < 1280 ∨ view.mtu.mtu = synced.1.mtu then synced.1
    else synced.1.setMtu view.mtu.mtu
  ({ sized with peers := exits.foldl (fun t x => t.setDefaultExit x.1 x.2) sized.peers }, synced.2)

def LocalEndpoint.sync (e : Engine) (view : Snapshot) : Engine :=
  { e with peers := e.peers.replaceAll view.members }

end Nqvpn
