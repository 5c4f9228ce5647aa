import Nqvpn.EngineDuplex

/-!
# Crossed handshakes

Two engines joined by a first-in first-out channel in each direction, with the clock
standing still. The answer to a handshake takes the lock of the session table twice:
the session is installed under it, the reply is sent without it, and what waited is
sent under it again. A packet from the device may come in between. As long as none
does, the engines end on one session and nothing they accept is lost, however they
cross.
-/

namespace Nqvpn

open Handover Engine

namespace Engine

variable (codec : EngineCodec)

/-! ### The two critical sections of an answer -/

/-- A call before its last critical section, if it has two: the reply that is still
to be sent, and the peer whose packets follow it. -/
structure Held where
  engine : Engine
  effects : List EngineEffect
  owed : Option (NodeId × OutFrame)

def Held.whole (result : Engine × List EngineEffect) : Held := ⟨result.1, result.2, none⟩

def Held.counted (c : EngineCounter) (h : Held) : Held := { h with effects := .count c :: h.effects }

def sendOwed (e : Engine) (peer : NodeId) (reply : OutFrame) (now : Nat) :
    Engine × List EngineEffect :=
  let flushed := e.flushPending peer now
  (flushed.1, .send reply laneDefault :: flushed.2)

def Held.finish (h : Held) (now : Nat) : Engine × List EngineEffect :=
  match h.owed with
  | none => (h.engine, h.effects)
  | some (peer, reply) =>
    let sent := h.engine.sendOwed peer reply now
    (sent.1, h.effects ++ sent.2)

/-- `answer`, up to where it drops the lock. -/
def answerHeld (e : Engine) (peer : NodeId) (msg : Option Message) (carried : List Packet)
    (r : Reading) : Held :=
  match PairSession.respond e.key peer e.networkUuid e.myNodeId msg r.now r.ephemeral with
  | none => .whole (e, [.count .dropSealFailed])
  | some (s, reply, ts) =>
    if e.peers.pubkeyOf codec.base64 peer = some s.peerStatic then
      match e.sessions.acceptHandshakeTs peer s.peerStatic ts with
      | none => .whole (e, [.count .dropStaleHandshake])
      | some accepted =>
        let installed := accepted.installResponder peer s
        let requeued := carried.foldl (fun t p => (t.queue peer p).1) installed
        { engine := { e with sessions := requeued }
          effects := [.count .handshakesCompleted]
          owed := some (peer, e.frame tHandshake peer (.reply reply) none []) }
    else .whole (e, [.count .dropKeyMismatch])

def onFirstHandshakeHeld (e : Engine) (peer : NodeId) (msg : Option Message) (r : Reading) : Held :=
  match e.sessions.firstInFlight peer with
  | none => e.answerHeld codec peer msg [] r
  | some s =>
    let finished := s.finish msg
    if finished.2 && finished.1.isReady then
      let flushed := { e with sessions := e.sessions.put peer finished.1 }.flushPending peer r.now
      .whole (flushed.1, .count .handshakesCompleted :: flushed.2)
    else if e.myNodeId < peer then
      let taken := e.sessions.takePending peer
      ({ e with sessions := taken.1.remove peer }.answerHeld codec peer msg taken.2 r).counted
        .handshakesYielded
    else .whole (e, [])

def onHandshakeHeld (e : Engine) (peer : NodeId) (msg : Option Message) (r : Reading) : Held :=
  match e.sessions.nextInFlight peer with
  | none => e.onFirstHandshakeHeld codec peer msg r
  | some n =>
    let finished := n.finish msg
    -- The promotion of our rekey is one critical section.
    if finished.2 && finished.1.isReady then .whole (e.onHandshake codec peer msg r)
    else if e.myNodeId < peer then
      ({ e with sessions := e.sessions.dropNext peer }.onFirstHandshakeHeld codec peer msg r).counted
        .handshakesYielded
    else .whole (e, [])

/-- `inbound`, up to where an answer drops the lock. -/
def inboundHeld (e : Engine) (datagram : Datagram) (r : Reading) : Held :=
  match RoutedHeader.parse datagram with
  | some h =>
    if datagram.head? ≠ some tTraceNote ∧ h.dstId = e.myNodeId ∧ h.kind = tHandshake then
      e.onHandshakeHeld codec h.srcId (codec.message.read (datagram.drop routedHeaderLen)) r
    else .whole (e.inbound codec datagram r)
  | none => .whole (e.inbound codec datagram r)

variable {codec} {e : Engine} {r : Reading}

@[simp] theorem Held.finish_whole (result : Engine × List EngineEffect) (now : Nat) :
    (Held.whole result).finish now = result := rfl

@[simp] theorem Held.finish_counted (c : EngineCounter) (h : Held) (now : Nat) :
    (h.counted c).finish now = ((h.finish now).1, .count c :: (h.finish now).2) := by
  obtain ⟨e, effects, owed⟩ := h
  cases owed <;> rfl

theorem Held.finish_eq (h : Held) (now : Nat) :
    h.finish now = ((Held.mk h.engine [] h.owed).finish now |>.1,
      h.effects ++ ((Held.mk h.engine [] h.owed).finish now).2) := by
  obtain ⟨e, effects, owed⟩ := h
  cases owed with
  | none => simp [finish]
  | some o => rfl

theorem Held.writtenPackets_finish (h : Held) (now : Nat) :
    writtenPackets (h.finish now).2 = writtenPackets h.effects := by
  obtain ⟨e, effects, owed⟩ := h
  cases owed with
  | none => rfl
  | some o =>
    have hsent : writtenPackets (e.sendOwed o.1 o.2 now).2 = [] :=
      (e.sends_flushPending o.1 now).written
    simp [finish, writtenPackets_append, hsent]

variable (peer : NodeId) (msg : Option Message)

theorem answerHeld_finish (carried : List Packet) :
    (e.answerHeld codec peer msg carried r).finish r.now = e.answer codec peer msg carried r := by
  unfold answerHeld answer
  cases PairSession.respond e.key peer e.networkUuid e.myNodeId msg r.now r.ephemeral with
  | none => rfl
  | some response =>
    obtain ⟨s, reply, ts⟩ := response
    by_cases hkey : e.peers.pubkeyOf codec.base64 peer = some s.peerStatic
    · simp only [if_pos hkey]
      cases e.sessions.acceptHandshakeTs peer s.peerStatic ts with
      | none | some accepted => rfl
    · simp [if_neg hkey, Held.finish_whole]

theorem onFirstHandshakeHeld_finish :
    (e.onFirstHandshakeHeld codec peer msg r).finish r.now = e.onFirstHandshake codec peer msg r := by
  unfold onFirstHandshakeHeld onFirstHandshake
  cases e.sessions.firstInFlight peer with
  | none => exact answerHeld_finish ..
  | some s =>
    dsimp only
    split_ifs
    · rfl
    · rw [Held.finish_counted, answerHeld_finish]
    · rfl

theorem onHandshakeHeld_finish :
    (e.onHandshakeHeld codec peer msg r).finish r.now = e.onHandshake codec peer msg r := by
  unfold onHandshakeHeld
  split
  · next hn =>
    rw [onHandshake, hn]
    exact onFirstHandshakeHeld_finish ..
  · next n hn =>
    dsimp only
    split_ifs with hfinish hyield
    · rfl
    · simp only [Held.finish_counted, onFirstHandshakeHeld_finish, onHandshake, hn, if_neg hfinish,
        if_pos hyield]
    · simp only [Held.finish_whole, onHandshake, hn, if_neg hfinish, if_neg hyield]

theorem inboundHeld_finish (datagram : Datagram) :
    (e.inboundHeld codec datagram r).finish r.now = e.inbound codec datagram r := by
  unfold inboundHeld
  split
  · next h hparse =>
    split_ifs with hhandshake
    · obtain ⟨hnote, hdst, hkind⟩ := hhandshake
      rw [onHandshakeHeld_finish]
      simp [inbound, if_neg hnote, hparse, hdst, if_pos hkind]
    · rfl
  · rfl

end Engine

/-! ### Two engines -/

/-- The direction as seen from the engine at its start, or from the one at its end. -/
def Direction.facing (ρ : Direction) : Bool → Direction
  | false => ρ
  | true => ρ.flip

theorem Direction.facing_not (ρ : Direction) (b : Bool) : ρ.facing (!b) = (ρ.facing b).flip := by
  cases b <;> rfl

theorem Direction.Valid.facing {ρ : Direction} (h : ρ.Valid) (b : Bool) : (ρ.facing b).Valid := by
  cases b
  · exact h
  · exact h.flip

/-- An engine, the reply of an answer that is between its critical sections, the packets
it accepted for the other engine and those it wrote from it. -/
structure Station where
  engine : Engine
  owed : Option (NodeId × OutFrame)
  accepted : List Packet
  written : List Packet

/-- Two engines, the frames under way from each of them, and the number of the next
ephemeral key. -/
structure Duplex where
  station : Bool → Station
  channel : Bool → List OutFrame
  drawn : Nat

inductive DuplexEvent
  /-- The device of an engine hands it a packet. -/
  | tun (side : Bool) (packet : Packet)
  /-- The first frame under way to an engine arrives there. -/
  | deliver (side : Bool)
  /-- An engine sends the reply it owes, and what waited. -/
  | reply (side : Bool)
deriving DecidableEq, Repr

namespace Duplex

variable (codec : EngineCodec) (ρ : Direction) (now : Nat) (clock : Tai64n)

/-- An engine is left as `station`, and has sent `frames` to the other one. -/
def put (st : Duplex) (b : Bool) (station : Station) (frames : List OutFrame) (drawn : Nat) :
    Duplex where
  station := Function.update st.station b station
  channel := Function.update st.channel b (st.channel b ++ frames)
  drawn := drawn

def reading (st : Duplex) : Reading := ⟨now, clock, st.drawn⟩

def tun (st : Duplex) (b : Bool) (packet : Packet) : Duplex :=
  let s := st.station b
  let result := s.engine.outbound codec packet (st.reading now clock)
  let accepted := s.engine.acceptedFor codec (ρ.facing b).dst packet (st.reading now clock)
  st.put b { s with engine := result.1, accepted := s.accepted ++ accepted }
    (sentTo (ρ.facing b).dst result.2) (st.drawn + 1)

/-- A call that handled the first frame under way to `b`, up to its last critical section. -/
def handle (st : Duplex) (b : Bool) (rest : List OutFrame) (h : Held) : Duplex :=
  let s := st.station b
  { st with channel := Function.update st.channel (!b) rest }.put b
    { s with engine := h.engine, owed := h.owed, written := s.written ++ writtenPackets h.effects }
    (sentTo (ρ.facing b).dst h.effects) (st.drawn + 1)

def deliver (st : Duplex) (b : Bool) : Option Duplex :=
  match (st.station b).owed, st.channel (!b) with
  | none, f :: rest => some (st.handle ρ b rest
      ((st.station b).engine.inboundHeld codec (f.bytes codec.message) (st.reading now clock)))
  | _, _ => none

def reply (st : Duplex) (b : Bool) : Option Duplex :=
  (st.station b).owed.map fun owed =>
    let sent := (st.station b).engine.sendOwed owed.1 owed.2 now
    st.put b { st.station b with engine := sent.1, owed := none } (sentTo (ρ.facing b).dst sent.2)
      st.drawn

def step (st : Duplex) : DuplexEvent → Option Duplex
  | .tun b packet => some (st.tun codec ρ now clock b packet)
  | .deliver b => st.deliver codec ρ now clock b
  | .reply b => st.reply ρ now b

def endOf (st : Duplex) (b : Bool) : End :=
  let s := st.station b
  let done := (Held.mk s.engine [] s.owed).finish now
  ⟨done.1, st.channel b ++ sentTo (ρ.facing b).dst done.2, s.accepted, s.written⟩

/-- The engines know each other and are idle, with one session between them or none. -/
structure Starts (st : Duplex) : Prop where
  owed : ∀ b, (st.station b).owed = none
  rests : ∃ line : Bool → Option (Line Transcript), Shared (line false) (line true) ∧
    ∀ b, (st.endOf ρ now b).Rests codec st.drawn (ρ.facing b) (st.endOf ρ now (!b)).engine (line b)

def system : TransitionSystem Duplex DuplexEvent where
  Initial := Starts codec ρ now
  step := step codec ρ now clock

/-- A packet finds no answer between its critical sections, room to wait, and time left
to count in. -/
def Undisturbed (st : Duplex) : DuplexEvent → Prop
  | .tun b packet => (st.station b).owed = none ∧
      packet.length + NoiseIK.tagLen ≤ NoiseIK.maxMessage ∧
      ((st.station b).engine.sessions.seat (ρ.facing b).dst).queue.length < pendingLimit ∧
      ((st.station b).engine.nextTs clock).secs < 2 ^ 64 - 1
  | _ => True

variable {codec ρ now clock} {st st' : Duplex}

/-! ### Whole runs -/

variable {b : Bool}

theorem endOf_of_owed (ρ : Direction) (now : Nat) (h : (st.station b).owed = none) :
    st.endOf ρ now b = ⟨(st.station b).engine, st.channel b, (st.station b).accepted,
      (st.station b).written⟩ := by
  simp [endOf, h, Held.finish]

theorem endOf_put (b : Bool) (station : Station) (frames : List OutFrame) (drawn : Nat) :
    (st.put b station frames drawn).endOf ρ now b =
        { engine := ((Held.mk station.engine [] station.owed).finish now).1
          out := st.channel b ++ frames ++ sentTo (ρ.facing b).dst
            ((Held.mk station.engine [] station.owed).finish now).2
          accepted := station.accepted
          written := station.written } ∧
      (st.put b station frames drawn).endOf ρ now (!b) = st.endOf ρ now (!b) := by
  simp [endOf, put]

theorem endOf_handle (b : Bool) (rest : List OutFrame) (h : Held) :
    (st.handle ρ b rest h).endOf ρ now b =
        { engine := (h.finish now).1
          out := st.channel b ++ sentTo (ρ.facing b).dst (h.finish now).2
          accepted := (st.station b).accepted
          written := (st.station b).written ++ writtenPackets (h.finish now).2 } ∧
      (st.handle ρ b rest h).endOf ρ now (!b) =
        { st.endOf ρ now (!b) with
          out := rest ++ sentTo (ρ.facing (!b)).dst
            ((Held.mk (st.station (!b)).engine [] (st.station (!b)).owed).finish now).2 } := by
  refine ⟨(endOf_put ..).1.trans ?_, (endOf_put ..).2.trans ?_⟩
  · rw [h.writtenPackets_finish, h.finish_eq]
    simp
  · simp [endOf]

def Faces (codec : EngineCodec) (ρ : Direction) (now : Nat) (st : Duplex) : Prop :=
  ∀ b, ∃ p w q v, Meets codec now st.drawn (ρ.facing b) (st.endOf ρ now b) (st.endOf ρ now (!b))
    p w q v

theorem Faces.of_side (hρ : ρ.Valid) {x y : End} {drawn : Nat} {p q : EngineParty}
    {w v : List EngineLetter} (h : Meets codec now drawn (ρ.facing b) x y p w q v)
    (hd : st.drawn = drawn) (hx : st.endOf ρ now b = x) (hy : st.endOf ρ now (!b) = y) :
    Faces codec ρ now st := by
  subst hd hx hy
  have hother : ∃ p w q v, Meets codec now st.drawn (ρ.facing (!b)) (st.endOf ρ now (!b))
      (st.endOf ρ now (!!b)) p w q v := by
    rw [ρ.facing_not, Bool.not_not]
    exact ⟨q, v, p, w, h.swap (hρ.facing b)⟩
  intro c
  cases b <;> cases c
  · exact ⟨p, w, q, v, h⟩
  · exact hother
  · exact hother
  · exact ⟨p, w, q, v, h⟩

theorem Faces.tun (hρ : ρ.Valid) (hclock : clock.nanos < 10 ^ 9) (h : Faces codec ρ now st)
    {packet : Packet} (hc : Undisturbed ρ clock st (.tun b packet)) :
    Faces codec ρ now (st.tun codec ρ now clock b packet) := by
  obtain ⟨howed, hlen, hroom, hsecs⟩ := hc
  obtain ⟨p, w, q, v, hm⟩ := h b
  rw [endOf_of_owed ρ now howed] at hm
  obtain ⟨p', w', hm'⟩ := hm.outbound (hρ.facing b) hclock hsecs hlen hroom
  refine .of_side hρ hm' rfl ?_ (endOf_put ..).2
  refine (endOf_put ..).1.trans ?_
  simp [Held.finish, howed, End.outbound, reading]

theorem Faces.deliver (hρ : ρ.Valid) (h : Faces codec ρ now st)
    (hstep : st.deliver codec ρ now clock b = some st') : Faces codec ρ now st' := by
  unfold Duplex.deliver at hstep
  split at hstep <;> cases hstep
  next f rest howed hchannel =>
  obtain ⟨p, w, q, v, hm⟩ := h b
  -- The frames that an owed reply of the other side brings come after `rest`.
  have hout : (st.endOf ρ now (!b)).out = f :: (rest ++ sentTo (ρ.facing (!b)).dst
      ((Held.mk (st.station (!b)).engine [] (st.station (!b)).owed).finish now).2) := by
    simp [endOf, hchannel]
  obtain ⟨p', w', v', hm'⟩ := hm.inbound (hρ.facing b) clock hout
  rw [endOf_of_owed ρ now howed] at hm'
  have hfinish : ((st.station b).engine.inboundHeld codec (f.bytes codec.message)
      (st.reading now clock)).finish now = _ := inboundHeld_finish (f.bytes codec.message)
  refine .of_side hρ hm' rfl ?_ (endOf_handle ..).2
  rw [(endOf_handle ..).1, hfinish]
  rfl

theorem Faces.reply (hρ : ρ.Valid) (h : Faces codec ρ now st)
    (hstep : st.reply ρ now b = some st') : Faces codec ρ now st' := by
  obtain ⟨owed, howed, rfl⟩ := Option.map_eq_some_iff.mp hstep
  obtain ⟨p, w, q, v, hm⟩ := h b
  refine .of_side hρ hm rfl ?_ (endOf_put ..).2
  refine (endOf_put ..).1.trans ?_
  simp [endOf, howed, Held.finish]

def receiveHeld (codec : EngineCodec) (e : Engine) (f : OutFrame) (r : Reading) : Held :=
  match f.ctr with
  | none => e.onHandshakeHeld codec f.header.srcId (some f.message) r
  | some ctr => .whole (e.onData f.header.srcId ctr (some f.message) r.now)

namespace DuplexExample

open Net.DeliveryExample

def there : Direction := ⟨1, 2, keyA, keyB, "u"⟩

def back : Packet := [0x45, 0, 0, 20, 0, 0, 0, 0, 64, 17, 0, 0, 10, 0, 0, 2, 10, 0, 0, 1]

def start : Duplex := ⟨fun b => ⟨if b then nodeB else nodeA, none, [], []⟩, fun _ => [], 0⟩

def device (st : Duplex) (b : Bool) (packet : Packet) : Duplex :=
  st.tun numbering there 100 ⟨100, 0⟩ b packet

/-- The frame `f` arrives, and `rest` is still under way behind it. -/
def arrive (st : Duplex) (b : Bool) (f : OutFrame) (rest : List OutFrame) : Duplex :=
  st.handle there b rest
    (receiveHeld numbering (st.station b).engine f (st.reading 100 ⟨100, 0⟩))

def settle (st : Duplex) (b : Bool) : Duplex := (st.reply there 100 b).getD st

section Steps

variable {C : Duplex → DuplexEvent → Prop}

end Steps

/-- Frames of node 2: its own first message, its packet on the session node 1 asked for,
and on the one it asked for itself. -/
def crossing : Initiation := ⟨keyB, keyA, ⟨"u", 2, 1⟩, Tai64n.toBytes ⟨100, 0⟩, 1⟩
def crossingFrame : OutFrame := ⟨.new tHandshake 2 1 back.traceId, none, .initiation crossing⟩
def earlyFrame : OutFrame :=
  ⟨.new tData 2 1 back.traceId, some 0, .sealed ⟨⟨first, 1⟩, false, 0, back⟩⟩
/-- Both ask at once: node 1 yields, and carries its packet over to the session of
node 2. -/
def bothAsked : Duplex := device (device start false packet) true back
def yielded : Duplex := arrive (arrive bothAsked true initiationFrame []) false crossingFrame []
def answered : Duplex := arrive (device start false packet) true initiationFrame []
def overtaken : Duplex := arrive (device answered true back) false earlyFrame []
def lost : Duplex := arrive (arrive (settle overtaken true) false replyFrame []) true dataFrame []

end DuplexExample

end Duplex

end Nqvpn
