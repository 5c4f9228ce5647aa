import Nqvpn.Admission
import Nqvpn.Frame

/-!
# The session task

One task owns one connection between two members. It answers and sends keepalive
probes, takes renewed credentials from the control stream, hands every other packet
on, and ends the session when the connection or the control stream ends, when the
far end stops answering, or when the credential has expired. Each input is one of
the things its loop waits for.
-/

namespace Nqvpn

/-- Why the task ended. -/
inductive SessionEnding
  | closed
  | expired
  | probeTimeout
  | protocol (reason : String)
deriving DecidableEq, Repr

structure SessionConfig where
  probeSecs : Nat
  probeMisses : Nat
deriving DecidableEq, Repr

def closeProbeTimeout : Nat := 7

/-- What the loop reads and writes of one session. -/
structure DataSession where
  claims : Claims
  peerFp : String
  exp : Nat
  loginGen : Nat
  rttUs : Nat
  /-- Probes sent since the last answer. -/
  outstanding : Nat
  seq : Nat
deriving DecidableEq, Repr

/-- What arrives on the control stream. -/
inductive ControlInput
  | refresh (credential : Text)
  | badRefresh (reason : String)
  | other
  | ended
deriving DecidableEq, Repr

inductive RunInput
  | packet (d : Datagram) (nowUs : Nat)
  | channelClosed
  | control (c : ControlInput)
  /-- The expiry timer, set when the loop last came round. -/
  | expiryTimer (armed now : Nat)
  | probeTick (nowUs : Nat)
deriving DecidableEq, Repr

/-- One pass of the loop: the session after it, what was sent, and what was handed on. -/
structure Ran where
  session : DataSession
  sent : List Datagram := []
  handed : Option Datagram := none
deriving DecidableEq, Repr

namespace DataSession

def new (claims : Claims) (peerFp : String) : DataSession :=
  ⟨claims, peerFp, claims.exp, claims.loginGen, 0, 0, 0⟩

variable (s : DataSession)

/-- When the session ends for want of a renewal: the expiry, with the leeway
verification allows. -/
def endsAt : Nat := satAdd s.exp leewaySecs

def expIn (now : Nat) : Nat := s.endsAt - now

def refreshed (c : Claims) : DataSession :=
  { s with exp := c.exp, loginGen := c.loginGen }

def onPacket (d : Datagram) (nowUs : Nat) : Ran :=
  if d.head? = some tProbe then
    ⟨s, (Probe.parse d).toList.map fun p => p.intoReply.encode, none⟩
  else if d.head? = some tReply then
    match Probe.parse d with
    | some p => ⟨{ s with outstanding := 0, rttUs := nowUs - p.tSent }, [], none⟩
    | none => ⟨s, [], none⟩
  else ⟨s, [], some d⟩

/-- `verifier` is the acceptor's; a dialer has none and ignores renewals. -/
def onControl (verifier : Option (Text → String → Except SessionRefusal Claims)) :
    ControlInput → Except SessionEnding Ran
  | .ended => .error .closed
  | .other => .ok ⟨s, [], none⟩
  | .badRefresh reason =>
    if verifier.isSome then .error (.protocol s!"bad Refresh: {reason}") else .ok ⟨s, [], none⟩
  | .refresh credential =>
    match verifier with
    | none => .ok ⟨s, [], none⟩
    | some verify =>
      match verify credential s.peerFp with
      | .ok c =>
        if c.nodeId = s.claims.nodeId ∧ c.role = s.claims.role then .ok ⟨s.refreshed c, [], none⟩
        else .error (.protocol s!"Refresh for another member ({c.nodeId})")
      | .error (.refused e) => .error (.protocol s!"Refresh rejected: {e}")
      | .error (.staleLogin e) => .error (.protocol s!"Refresh rejected: {e}")

/-- The timer has run out: as many seconds have passed on the clock as were left when
it was set. -/
def timerFires (armed now : Nat) : Bool := armed + s.expIn armed ≤ now

def step (cfg : SessionConfig) (verifier : Option (Text → String → Except SessionRefusal Claims))
    (s : DataSession) : RunInput → Except SessionEnding Ran
  | .packet d nowUs => .ok (s.onPacket d nowUs)
  | .channelClosed => .error .closed
  | .control c => s.onControl verifier c
  | .expiryTimer armed now => if s.timerFires armed now then .error .expired else .ok ⟨s, [], none⟩
  | .probeTick nowUs =>
    if cfg.probeSecs = 0 then .ok ⟨s, [], none⟩
    else if cfg.probeMisses ≤ s.outstanding then .error .probeTimeout
    else .ok ⟨{ s with seq := s.seq + 1, outstanding := s.outstanding + 1 },
      [(⟨tProbe, s.seq + 1, nowUs⟩ : Probe).encode], none⟩

end DataSession

end Nqvpn
