import Nqvpn.Snapshot

/-!
# Liveness and attachment leases

What members have told the coordinator, with timestamps in milliseconds. A
relay declares the whole set of clients it holds; the attachment table is
derived from those declarations, the most recent one winning among those the
client itself does not contradict.
-/

namespace Nqvpn

structure AttachedClient where
  nodeId : NodeId
  sessionId : Nat
deriving DecidableEq, Repr

structure LinkTraffic where
  peerId : NodeId
  txBytes : Nat
  txPkts : Nat
  rxBytes : Nat
  rxPkts : Nat
  up : Bool
deriving DecidableEq, Repr

structure TrafficReport where
  links : List LinkTraffic
  localBytes : Nat
  localPkts : Nat
  terminatedBytes : Nat
  terminatedPkts : Nat
deriving DecidableEq, Repr

/-- Member to coordinator: always the whole truth, never an event. -/
structure Heartbeat where
  gen : Nat
  digest : UInt64
  attached : List AttachedClient
  meshUp : List NodeId
  attachedTo : Option NodeId
  usableMtu : Nat
  traffic : Option TrafficReport
deriving DecidableEq

structure Claim where
  sessionId : Nat
  seq : Nat
deriving DecidableEq, Repr

structure Report where
  gen : Nat
  digest : UInt64
  at_ : Nat
deriving DecidableEq

structure Leases where
  lastSeen : Std.ExtTreeMap NodeId Nat
  offlineSince : Std.ExtTreeMap NodeId Nat
  onlineSince : Std.ExtTreeMap NodeId Nat
  declared : Std.ExtTreeMap NodeId (Std.ExtTreeMap NodeId Claim)
  attachedTo : Std.ExtTreeMap NodeId NodeId
  meshUp : Std.ExtTreeMap NodeId (List NodeId)
  reported : Std.ExtTreeMap NodeId Report
  nextSeq : Nat

namespace Leases

def default : Leases := ⟨∅, ∅, ∅, ∅, ∅, ∅, ∅, 0⟩

variable (l : Leases) (node : NodeId)

def isOnline : Bool := l.lastSeen.contains node

def seen (now : Nat) : Leases × Bool :=
  let wasOnline := l.lastSeen.contains node
  let l := { l with lastSeen := l.lastSeen.insert node now }
  if wasOnline then (l, false)
  else
    ({ l with
       onlineSince := l.onlineSince.insert node now
       offlineSince := l.offlineSince.erase node }, true)

/-- The loop over a relay's declared clients: claims kept, the sequence counter
and whether a claim is new. -/
structure Declaring where
  keep : Std.ExtTreeMap NodeId Claim
  nextSeq : Nat
  changed : Bool

def Declaring.add (mine : Std.ExtTreeMap NodeId Claim) (isClient : NodeId → Bool)
    (s : Declaring) (c : AttachedClient) : Declaring :=
  if !isClient c.nodeId then s
  else
    match mine[c.nodeId]? with
    | some claim =>
      if claim.sessionId = c.sessionId then { s with keep := s.keep.insert c.nodeId claim }
      else ⟨s.keep.insert c.nodeId ⟨c.sessionId, s.nextSeq + 1⟩, s.nextSeq + 1, true⟩
    | none => ⟨s.keep.insert c.nodeId ⟨c.sessionId, s.nextSeq + 1⟩, s.nextSeq + 1, true⟩

def declare (l : Leases) (node : NodeId) (hb : Heartbeat) (isClient : NodeId → Bool)
    (maxAttached : Nat) : Leases × Bool :=
  let mine := l.declared.getD node ∅
  let s := (hb.attached.take maxAttached).foldl (Declaring.add mine isClient) ⟨∅, l.nextSeq, false⟩
  ({ l with
     declared := l.declared.insert node s.keep
     meshUp := l.meshUp.insert node hb.meshUp
     nextSeq := s.nextSeq },
   s.changed || s.keep.size != mine.size)

def reportAttachment (hb : Heartbeat) : Leases × Bool :=
  let before := l.attachedTo[node]?
  ({ l with
     attachedTo :=
       match hb.attachedTo with
       | some r => l.attachedTo.insert node r
       | none => l.attachedTo.erase node },
   before != hb.attachedTo)

def heartbeat (role : Role) (hb : Heartbeat) (now : Nat) (isClient : NodeId → Bool)
    (maxAttached : Nat) : Leases × Bool :=
  let (l, cameOnline) := l.seen node now
  let l := { l with reported := l.reported.insert node ⟨hb.gen, hb.digest, now⟩ }
  let (l, changed) :=
    match role with
    | .relay => l.declare node hb isClient maxAttached
    | .client => l.reportAttachment node hb
  (l, cameOnline || changed)

def offline (l : Leases) (node : NodeId) : Leases :=
  { l with
    lastSeen := l.lastSeen.erase node
    offlineSince :=
      match l.lastSeen[node]? with
      | some last => l.offlineSince.insert node last
      | none => l.offlineSince
    onlineSince := l.onlineSince.erase node
    attachedTo := l.attachedTo.erase node
    meshUp := l.meshUp.erase node }

/-- The members silent for longer than `window`. -/
def silent (now window : Nat) : List NodeId :=
  (l.lastSeen.toList.filter (fun p => now - p.2 > window)).map Prod.fst

def expire (now window : Nat) : Leases × List NodeId :=
  let gone := l.silent now window
  (gone.foldl offline l, gone)

def remove : Leases :=
  let l := l.offline node
  { l with
    offlineSince := l.offlineSince.erase node
    reported := l.reported.erase node
    declared := l.declared.map (fun _ claims => claims.erase node) }

def removeRelay (relay : NodeId) : Leases :=
  { l with declared := l.declared.erase relay }.remove relay

/-- One claim folded into the best ones so far, unless the client says it is
elsewhere. -/
def bestClaim (relay : NodeId) (best : Std.ExtTreeMap NodeId (Nat × NodeId)) (p : NodeId × Claim) : Std.ExtTreeMap NodeId (Nat × NodeId) :=
  if (l.attachedTo[p.1]?).any (fun r => r != relay) then best
  else
    match best[p.1]? with
    | some b => if b.1 > p.2.seq then best else best.insert p.1 (p.2.seq, relay)
    | none => best.insert p.1 (p.2.seq, relay)

def attachments : Std.ExtTreeMap NodeId NodeId :=
  let best := l.declared.toList.foldl
    (fun best (d : NodeId × Std.ExtTreeMap NodeId Claim) => d.2.toList.foldl (l.bestClaim d.1) best) ∅
  best.map (fun _ b => b.2)

end Leases

end Nqvpn
