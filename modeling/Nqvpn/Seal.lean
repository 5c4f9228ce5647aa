import Nqvpn.Frame
import Nqvpn.NoiseIK
import Nqvpn.ReplayWindow
import Mathlib.Data.Prod.Lex

/-!
# End-to-end sessions

One session between two endpoints: a handshake bound to the network and the
ordered pair of node ids, then sealed packets under explicit counters, which the
receiver checks against a sliding window before it authenticates a frame and
commits afterwards. The first handshake message carries the initiator's clock.
Clock readings and fresh ephemeral keys are arguments.
-/

namespace Nqvpn

open BigEndian

abbrev Key := List UInt8

def replayWindow : Nat := 2048
def rekeyAfterSecs : Nat := 120
def responderRekeyDelaySecs : Nat := 10
def rejectAfterSecs : Nat := 180
def previousGraceSecs : Nat := 10
def handshakeTimeoutSecs : Nat := 5
def rekeyAfterMessages : Nat := 2 ^ 40
def rejectAfterMessages : Nat := 2 ^ 40 + 2 ^ 30

/-- The initiator's clock, in seconds and nanoseconds. -/
structure Tai64n where
  secs : Nat
  nanos : Nat
deriving DecidableEq, Repr

namespace Tai64n

def key (t : Tai64n) : Nat ×ₗ Nat := toLex (t.secs, t.nanos)

theorem key_injective : Function.Injective key := by
  rintro ⟨s, n⟩ ⟨s', n'⟩ h
  simp only [key, EmbeddingLike.apply_eq_iff_eq, Prod.mk.injEq] at h
  rw [h.1, h.2]

instance linearOrder : LinearOrder Tai64n := LinearOrder.lift' key key_injective

def zero : Tai64n := ⟨0, 0⟩

def toBytes (t : Tai64n) : List UInt8 := BigEndian.toBytes 8 t.secs ++ BigEndian.toBytes 4 t.nanos

/-- Decode a payload: twelve bytes, or the older eight of whole seconds; anything
shorter is the zero timestamp. -/
def fromPayload (p : List UInt8) : Tai64n where
  secs := if 8 ≤ p.length then ofBytes (p.take 8) else 0
  nanos := if 12 ≤ p.length then ofBytes ((p.drop 8).take 4) else 0

def succ (t : Tai64n) : Tai64n :=
  if 999999999 ≤ t.nanos then ⟨min (t.secs + 1) (2 ^ 64 - 1), 0⟩ else ⟨t.secs, t.nanos + 1⟩

end Tai64n

/-- What both sides mix into the transcript: the network and the ordered pair. -/
structure Prologue where
  networkUuid : String
  initiator : NodeId
  responder : NodeId
deriving DecidableEq, Repr, Encodable

namespace Prologue

def bytes (p : Prologue) : List UInt8 :=
  "nqvpn-v1".toUTF8.data.toList ++ (p.networkUuid.toUTF8.data.toList ++
    (toBytes 4 p.initiator ++ toBytes 4 p.responder))

theorem bytes_inj {p q : Prologue} (hpi : p.initiator < 2 ^ 32) (hpr : p.responder < 2 ^ 32)
    (hqi : q.initiator < 2 ^ 32) (hqr : q.responder < 2 ^ 32) (h : p.bytes = q.bytes) : p = q := by
  obtain ⟨uuid, i, r⟩ := p
  obtain ⟨uuid', i', r'⟩ := q
  have hparts := List.append_cancel_left h
  have hlen : (toBytes 4 i ++ toBytes 4 r).length =
      (toBytes 4 i' ++ toBytes 4 r').length := by simp
  obtain ⟨huuid, hids⟩ := List.append_inj' hparts hlen
  obtain ⟨hi, hr⟩ := List.append_inj hids (by simp)
  have hi' := congrArg ofBytes hi
  have hr' := congrArg ofBytes hr
  rw [ofBytes_toBytes (w := 4) hpi, ofBytes_toBytes (w := 4) hqi] at hi'
  rw [ofBytes_toBytes (w := 4) hpr, ofBytes_toBytes (w := 4) hqr] at hr'
  have hu : uuid = uuid' :=
    String.toByteArray_inj.mp (ByteArray.ext (Array.toList_inj.mp huuid))
  simp only at hi' hr'
  rw [hu, hi', hr']

end Prologue

abbrev Initiation := NoiseIK.Initiation Key Prologue (List UInt8)
abbrev Transcript := NoiseIK.Transcript Key Prologue (List UInt8)
abbrev SealedPacket := NoiseIK.Sealed Key Prologue (List UInt8)
abbrev Message := NoiseIK.Message Key Prologue (List UInt8)
abbrev MessageCodec := NoiseIK.Codec Key Prologue (List UInt8)

inductive SealError
  | noise
  | noSession (peer : NodeId)
  | replay (ctr : Nat)
deriving DecidableEq, Repr

inductive Stage
  | handshake (first : Initiation)
  | transport (transcript : Transcript) (sendingNonce : Nat)
deriving DecidableEq, Repr

/-- One end-to-end session with a single peer. -/
structure PairSession where
  stage : Stage
  peer : NodeId
  initiator : Bool
  replay : ReplayWindow replayWindow
  establishedAt : Nat
  messages : Nat
deriving DecidableEq, Repr

namespace PairSession

def initiateAt (key : Key) (peer : NodeId) (peerPubkey : Key) (networkUuid : String) (me : NodeId)
    (now : Nat) (ts : Tai64n) (ephemeral : Nat) : PairSession × Initiation :=
  let first : Initiation :=
    { initiator := key, responder := peerPubkey, prologue := ⟨networkUuid, me, peer⟩,
      payload := ts.toBytes, ephemeral }
  ({ stage := .handshake first, peer, initiator := true, replay := .default, establishedAt := now,
     messages := 0 }, first)

/-- Answer an incoming handshake: the session, the reply, and the initiator's
timestamp for the caller's replay check. -/
def respond (key : Key) (peer : NodeId) (networkUuid : String) (me : NodeId)
    (msg : Option Message) (now : Nat) (ephemeral : Nat) :
    Option (PairSession × Transcript × Tai64n) :=
  -- The initiator is the peer, so the prologue orders it first.
  (NoiseIK.readInitiation key ⟨networkUuid, peer, me⟩ msg).map fun first =>
    let transcript : Transcript := ⟨first, ephemeral⟩
    ({ stage := .transport transcript 0, peer, initiator := false, replay := .default,
       establishedAt := now, messages := 0 }, transcript, .fromPayload first.payload)
variable (s : PairSession) (now : Nat)

def finish (msg : Option Message) : PairSession × Bool :=
  match s.stage with
  -- Already established: a duplicate reply is harmless.
  | .transport _ _ => (s, true)
  | .handshake first =>
    match NoiseIK.readReply first msg with
    | some transcript => ({ s with stage := .transport transcript 0 }, true)
    | none => (s, false)

def isReady : Bool :=
  match s.stage with
  | .transport _ _ => true
  | .handshake _ => false

def first (s : PairSession) : Initiation :=
  match s.stage with
  | .handshake first => first
  | .transport transcript _ => transcript.first

def peerStatic : Key := if s.initiator then s.first.responder else s.first.initiator

def sealPacket (plaintext : List UInt8) : Option (PairSession × Nat × SealedPacket) :=
  match s.stage with
  | .handshake _ => none
  | .transport transcript ctr =>
    if ctr < 2 ^ 64 - 1 ∧ plaintext.length + NoiseIK.tagLen ≤ NoiseIK.maxMessage then
      some ({ s with stage := .transport transcript (ctr + 1), messages := s.messages + 1 }, ctr,
        ⟨transcript, s.initiator, ctr, plaintext⟩)
    else none

def unsealFrame (ctr : Nat) (msg : Option Message) :
    Except SealError (PairSession × List UInt8) :=
  match s.stage with
  | .handshake _ => .error (.noSession s.peer)
  | .transport transcript _ =>
    if s.replay.check ctr = false then .error (.replay ctr)
    else
      match NoiseIK.unlock transcript (!s.initiator) ctr msg with
      | none => .error .noise
      | some plaintext => .ok ({ s with replay := s.replay.commit ctr }, plaintext)

def isStaleHandshake : Bool :=
  !s.isReady && handshakeTimeoutSecs ≤ now - s.establishedAt

def needsRekey : Bool :=
  rekeyAfterSecs ≤ now - s.establishedAt || rekeyAfterMessages ≤ s.messages

def mustExpire : Bool :=
  rejectAfterSecs ≤ now - s.establishedAt || rejectAfterMessages ≤ s.messages

end PairSession

end Nqvpn
