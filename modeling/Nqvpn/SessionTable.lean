import Nqvpn.PeerTable

/-!
# The session table

One peer has up to three sessions across a rekey: `current`, on which packets are
sealed once it is ready; `next`, a replacement being negotiated; and `previous`,
which still decrypts for a short grace. A frame carries no session index, so the
receiver tries them in that order. The table also holds the packets that wait for
a handshake, and per peer and static key the newest initiation timestamp accepted.
-/

namespace Nqvpn

structure PeerSessions where
  current : Option PairSession
  next : Option PairSession
  /-- The session `current` replaced, and when it was retired. -/
  previous : Option (PairSession × Nat)
  /-- When we first sent to this peer without hearing anything back since. -/
  awaitingSince : Option Nat
  lastSent : Nat
deriving DecidableEq, Repr

namespace PeerSessions

def default : PeerSessions := ⟨none, none, none, none, 0⟩

variable (p : PeerSessions) (now : Nat)

def isEmpty : Bool := p.current.isNone && p.next.isNone && p.previous.isNone

def slots : List PairSession :=
  p.current.toList ++ (p.next.toList ++ (p.previous.map (·.1)).toList)

theorem mem_slots {p : PeerSessions} {s : PairSession} :
    s ∈ p.slots ↔ p.current = some s ∨ p.next = some s ∨ ∃ retired, p.previous = some (s, retired) := by
  simp [slots, eq_comm]

/-- `next` becomes `current`; a ready `current` is kept receive-only. -/
def promote : PeerSessions :=
  match p.next with
  | none => p
  | some new =>
    { p with
      awaitingSince := none
      previous := ((p.current.filter (·.isReady)).map fun old => (old, now)).or p.previous
      current := some new
      next := none }

def nextInFlight : Option PairSession :=
  p.next.filter fun s => s.initiator && !s.isReady

def error? {α : Type} : Option (Except SealError α) → List SealError
  | some (.error e) => [e]
  | _ => []

def verdict (errs : List SealError) : SealError :=
  (errs.find? fun e => e matches .replay _).getD (errs.headD (.noSession 0))

def unsealAny (ctr : Nat) (msg : Option Message) (now : Nat) :
    Except SealError (PeerSessions × Packet) :=
  let onCurrent : Option (Except SealError (PairSession × Packet)) :=
    (p.current.filter (·.isReady)).map fun s => s.unsealFrame ctr msg
  let onNext : Option (Except SealError (PairSession × Packet)) :=
    (p.next.filter (·.isReady)).map fun s => s.unsealFrame ctr msg
  let onPrevious : Option (Except SealError ((PairSession × Nat) × Packet)) :=
    (p.previous.filter fun q => now - q.2 < previousGraceSecs).map fun q =>
      (q.1.unsealFrame ctr msg).map fun r => ((r.1, q.2), r.2)
  match onCurrent with
  | some (.ok (s, v)) => .ok ({ p with current := some s }, v)
  | _ =>
    match onNext with
    -- The peer holds the new keys: this is now the session we send on.
    | some (.ok (s, v)) => .ok ({ p with next := some s }.promote now, v)
    | _ =>
      match onPrevious with
      | some (.ok (q, v)) => .ok ({ p with previous := some q }, v)
      | _ => .error (verdict (error? onCurrent ++ error? onNext ++ error? onPrevious))

/-- What the periodic sweep keeps: established sessions within the hard deadline,
and handshakes that have not timed out. -/
def keeps (s : PairSession) : Bool :=
  !(s.isReady && s.mustExpire now) && !s.isStaleHandshake now

def expire : PeerSessions :=
  let swept := { p with current := p.current.filter (keeps now), next := p.next.filter (keeps now) }
  -- Nothing left to send on but a ready, unconfirmed answer: use it.
  let used := if swept.current.isNone && swept.next.any (·.isReady) then swept.promote now else swept
  { used with previous := used.previous.filter fun q => now - q.2 < previousGraceSecs }

def timedOut : Bool :=
  p.current.any (·.isStaleHandshake now) || p.next.any (·.isStaleHandshake now)

def sync (want : Option Key) : PeerSessions :=
  { p with
    current := p.current.filter fun s => want = some s.peerStatic
    next := p.next.filter fun s => want = some s.peerStatic
    previous := p.previous.filter fun q => want = some q.1.peerStatic }

def lostSession (want : Option Key) : Bool :=
  let kept := p.sync want
  (p.current.isSome, p.next.isSome, p.previous.isSome) !=
    (kept.current.isSome, kept.next.isSome, kept.previous.isSome)

end PeerSessions

structure SessionTable where
  sessions : Std.ExtTreeMap NodeId PeerSessions
  pending : Std.ExtTreeMap NodeId (List Packet)
  lastHandshakeTs : NodeId → Key → Option Tai64n

def pendingLimit : Nat := 64
def keepaliveSecs : Nat := 5
def unansweredRekeySecs : Nat := 10

namespace SessionTable

def default : SessionTable := ⟨∅, ∅, fun _ _ => none⟩

/-- `entry(peer).or_default()`. -/
def entry (t : SessionTable) (peer : NodeId) : PeerSessions := t.sessions[peer]?.getD .default

def setEntry (t : SessionTable) (peer : NodeId) (p : PeerSessions) : SessionTable :=
  { t with sessions := t.sessions.insert peer p }

/-- Change what is held for `peer`, if anything is. -/
def modifyPeer (t : SessionTable) (peer : NodeId) (f : PeerSessions → PeerSessions) : SessionTable :=
  { t with sessions := t.sessions.modify peer f }

def get (t : SessionTable) (peer : NodeId) : Option PairSession := t.sessions[peer]?.bind (·.current)

/-- Write back the session `get` returned. -/
def put (t : SessionTable) (peer : NodeId) (s : PairSession) : SessionTable :=
  t.modifyPeer peer fun p => { p with current := some s }

def remove (t : SessionTable) (peer : NodeId) : SessionTable :=
  { t with sessions := t.sessions.erase peer, pending := t.pending.erase peer }

def isReady (t : SessionTable) (peer : NodeId) : Bool := (t.get peer).any (·.isReady)

def has (t : SessionTable) (peer : NodeId) : Bool :=
  t.sessions[peer]?.any fun p => p.current.isSome || p.next.isSome

def nextInFlight (t : SessionTable) (peer : NodeId) : Option PairSession :=
  t.sessions[peer]?.bind (·.nextInFlight)

def firstInFlight (t : SessionTable) (peer : NodeId) : Option PairSession :=
  (t.get peer).filter fun s => !s.isReady && s.initiator

def putNext (t : SessionTable) (peer : NodeId) (s : PairSession) : SessionTable :=
  t.modifyPeer peer fun p => { p with next := some s }

def dropNext (t : SessionTable) (peer : NodeId) : SessionTable :=
  t.modifyPeer peer fun p => { p with next := none }

def promote (t : SessionTable) (peer : NodeId) (now : Nat) : SessionTable :=
  t.modifyPeer peer (·.promote now)

/-- A handshake we answered. With a working session in place it waits in `next`
until the peer's first frame on it arrives. -/
def installResponder (t : SessionTable) (peer : NodeId) (s : PairSession) : SessionTable :=
  let p := { t.entry peer with awaitingSince := none }
  t.setEntry peer
    (if p.current.any (·.isReady) then { p with next := some s } else { p with current := some s })

def rekeyDue (t : SessionTable) (peer : NodeId) (now : Nat) : Bool :=
  match t.sessions[peer]? with
  | none => false
  | some p =>
    match p.current.filter (·.isReady) with
    | none => false
    | some c =>
      if p.next.isSome then false
      else if p.awaitingSince.any (fun since => unansweredRekeySecs ≤ now - since) then true
      -- The responder rekeys a little later, as a backstop.
      else c.needsRekey (if c.initiator then now else now - responderRekeyDelaySecs)

def noteSent (t : SessionTable) (peer : NodeId) (now : Nat) : SessionTable :=
  t.modifyPeer peer fun p =>
    { p with awaitingSince := p.awaitingSince.or (some now), lastSent := now }

def keepaliveDue (t : SessionTable) (peer : NodeId) (now : Nat) : Bool :=
  t.isReady peer && t.sessions[peer]?.any fun p => keepaliveSecs ≤ now - p.lastSent

/-- Start replacing a working session: `current` keeps sending until it completes. -/
def initiateRekey (t : SessionTable) (key : Key) (peer : NodeId) (peerPubkey : Key)
    (networkUuid : String) (me : NodeId) (now : Nat) (ts : Tai64n) (ephemeral : Nat) :
    SessionTable × Initiation :=
  let started := PairSession.initiateAt key peer peerPubkey networkUuid me now ts ephemeral
  (t.setEntry peer { t.entry peer with next := some started.1 }, started.2)

def initiateAt (t : SessionTable) (key : Key) (peer : NodeId) (peerPubkey : Key)
    (networkUuid : String) (me : NodeId) (now : Nat) (ts : Tai64n) (ephemeral : Nat) :
    SessionTable × Initiation :=
  let started := PairSession.initiateAt key peer peerPubkey networkUuid me now ts ephemeral
  (t.setEntry peer
    { t.entry peer with current := some started.1, next := none, awaitingSince := none }, started.2)

def unsealFrame (t : SessionTable) (peer : NodeId) (ctr : Nat) (msg : Option Message) (now : Nat) :
    Except SealError (SessionTable × Packet) :=
  match t.sessions[peer]? with
  | none => .error (.noSession peer)
  | some p =>
    match p.unsealAny ctr msg now with
    | .ok (p', v) => .ok (t.setEntry peer { p' with awaitingSince := none }, v)
    | .error (.noSession _) => .error (.noSession peer)
    | .error e => .error e

/-- Queue a packet while the handshake runs, dropping the oldest first; whether
nothing was dropped. -/
def queue (t : SessionTable) (peer : NodeId) (packet : Packet) : SessionTable × Bool :=
  let q := t.pending[peer]?.getD []
  let dropped : Bool := pendingLimit ≤ q.length
  ({ t with pending := t.pending.insert peer ((if dropped then q.drop 1 else q) ++ [packet]) },
    !dropped)

def takePending (t : SessionTable) (peer : NodeId) : SessionTable × List Packet :=
  ({ t with pending := t.pending.erase peer }, t.pending[peer]?.getD [])

/-- Accept an initiator timestamp if it is newer than the last one seen from this
peer under this static key. -/
def acceptHandshakeTs (t : SessionTable) (peer : NodeId) (staticKey : Key) (ts : Tai64n) :
    Option SessionTable :=
  if (t.lastHandshakeTs peer staticKey).any (ts ≤ ·) then none
  else
    some { t with lastHandshakeTs := fun id key =>
      if id = peer ∧ key = staticKey then some ts else t.lastHandshakeTs id key }

def forgetHandshakeTs (t : SessionTable) (peer : NodeId) : SessionTable :=
  { t with lastHandshakeTs := fun id key => if id = peer then none else t.lastHandshakeTs id key }

def expire (t : SessionTable) (now : Nat) : SessionTable × List NodeId :=
  ({ t with sessions := (t.sessions.map fun _ p => p.expire now).filter fun _ p => !p.isEmpty },
    (t.sessions.toList.filter (·.2.timedOut now)).map (·.1))

/-- Bring sessions in line with the published membership, which maps every member
to its decoded key; also the peers that lost a session. -/
def syncView (t : SessionTable) (published : Std.ExtTreeMap NodeId (Option Key)) :
    SessionTable × List NodeId :=
  let want (id : NodeId) : Option Key := published[id]?.join
  let dropped := (t.sessions.toList.filter fun e => e.2.lostSession (want e.1)).map (·.1)
  let sessions := (t.sessions.map fun id p => p.sync (want id)).filter fun _ p => !p.isEmpty
  -- No handshake can ever drain the queue of a peer without a usable key.
  let keepsQueue (id : NodeId) : Bool := (want id).isSome && (id ∈ sessions || id ∉ dropped)
  ({ sessions, pending := t.pending.filter fun id _ => keepsQueue id,
     lastHandshakeTs := fun id key => if want id = some key then t.lastHandshakeTs id key else none },
    dropped)

/-! ### What each operation leaves for the peer it is about -/

variable (t : SessionTable) (peer : NodeId)

theorem sessions_modifyPeer (f : PeerSessions → PeerSessions) (a : NodeId) :
    (t.modifyPeer peer f).sessions[a]? =
      if peer = a then t.sessions[peer]?.map f else t.sessions[a]? := by
  simp [modifyPeer, Std.ExtTreeMap.getElem?_modify]

theorem sessions_setEntry (p : PeerSessions) (a : NodeId) :
    (t.setEntry peer p).sessions[a]? = if peer = a then some p else t.sessions[a]? := by
  simp [setEntry, Std.ExtTreeMap.getElem?_insert]

variable {f : PeerSessions → PeerSessions}

theorem nextInFlight_modifyPeer (hf : ∀ p, (f p).next = p.next) :
    (t.modifyPeer peer f).nextInFlight peer = t.nextInFlight peer := by
  simp only [nextInFlight, sessions_modifyPeer, if_true, PeerSessions.nextInFlight]
  cases t.sessions[peer]? with
  | none => rfl
  | some p => simp [hf]

theorem get_modifyPeer (hf : ∀ p, (f p).current = p.current) :
    (t.modifyPeer peer f).get peer = t.get peer := by
  simp only [get, sessions_modifyPeer, if_true]
  cases t.sessions[peer]? with
  | none => rfl
  | some p => simp [hf]

@[simp] theorem nextInFlight_put (s : PairSession) :
    (t.put peer s).nextInFlight peer = t.nextInFlight peer :=
  t.nextInFlight_modifyPeer peer fun _ => rfl

variable (now : Nat)

@[simp] theorem nextInFlight_noteSent :
    (t.noteSent peer now).nextInFlight peer = t.nextInFlight peer :=
  t.nextInFlight_modifyPeer peer fun _ => rfl

@[simp] theorem get_noteSent : (t.noteSent peer now).get peer = t.get peer :=
  t.get_modifyPeer peer fun _ => rfl

theorem get_put {s₀ : PairSession} (h : t.get peer = some s₀) (s : PairSession) :
    (t.put peer s).get peer = some s := by
  simp only [get, put, sessions_modifyPeer, if_true] at h ⊢
  obtain ⟨p, hp, -⟩ := Option.bind_eq_some_iff.mp h
  simp [hp]

@[simp] theorem nextInFlight_dropNext : (t.dropNext peer).nextInFlight peer = none := by
  simp only [nextInFlight, dropNext, sessions_modifyPeer, if_true]
  cases t.sessions[peer]? with
  | none | some p => rfl

theorem nextInFlight_promote_putNext {s : PairSession} :
    ((t.putNext peer s).promote peer now).nextInFlight peer = none := by
  simp only [nextInFlight, promote, putNext, sessions_modifyPeer, if_true]
  cases t.sessions[peer]? with
  | none | some p => rfl

theorem acceptHandshakeTs_eq_some {key : Key} {ts : Tai64n} {t' : SessionTable}
    (h : t.acceptHandshakeTs peer key ts = some t') :
    (t.lastHandshakeTs peer key).any (ts ≤ ·) = false ∧ t'.sessions = t.sessions ∧
      t'.pending = t.pending ∧ t'.lastHandshakeTs peer key = some ts := by
  unfold acceptHandshakeTs at h
  split_ifs at h with hstale
  cases h
  exact ⟨Bool.eq_false_iff.mpr hstale, rfl, rfl, if_pos ⟨rfl, rfl⟩⟩

theorem inFlight_installResponder {s : PairSession} (hs : s.initiator = false)
    (hnext : t.nextInFlight peer = none) (hfirst : t.firstInFlight peer = none) :
    (t.installResponder peer s).nextInFlight peer = none ∧
      (t.installResponder peer s).firstInFlight peer = none := by
  have hentry : (t.entry peer).nextInFlight = none ∧
      (t.entry peer).current.filter (fun s => !s.isReady && s.initiator) = none := by
    simp only [nextInFlight, firstInFlight, get, entry] at hnext hfirst ⊢
    cases hp : t.sessions[peer]? with
    | none => exact ⟨rfl, rfl⟩
    | some p =>
      rw [hp] at hnext hfirst
      exact ⟨hnext, hfirst⟩
  simp only [nextInFlight, firstInFlight, get, installResponder, sessions_setEntry, if_true,
    Option.bind_some]
  split_ifs with hready
  · exact ⟨by simp [PeerSessions.nextInFlight, hs], hentry.2⟩
  · exact ⟨hentry.1, by simp [hs]⟩

end SessionTable

end Nqvpn
