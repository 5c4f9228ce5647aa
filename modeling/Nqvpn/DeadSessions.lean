import Nqvpn.ControlPlane
import Nqvpn.LeaseClaims

/-!
# Messages of a session that is over

What a control connection has read is worked off even if its session was superseded,
evicted or closed meanwhile, and takes effect under the node's id. Each message is
described here by exactly what must already hold for it to change nothing.
-/

namespace Nqvpn

open Std.ExtTreeMap Leases Option

namespace Leases

/-- The leases already say all that the heartbeat says, as of this very moment. -/
structure Heard (l : Leases) (node : NodeId) (role : Role) (hb : Heartbeat) (now : Nat)
    (isClient : NodeId → Bool) (maxAttached : Nat) : Prop where
  seen : l.lastSeen[node]? = some now
  reported : l.reported[node]? = some ⟨hb.gen, hb.digest, now⟩
  declared : role = .relay →
    l.declared[node]? = some (l.declaring node hb isClient maxAttached).keep ∧
      l.nextSeq = (l.declaring node hb isClient maxAttached).nextSeq ∧
      l.meshUp[node]? = some hb.meshUp
  attachedTo : role = .client → l.attachedTo[node]? = hb.attachedTo

variable {l : Leases} {node : NodeId} {hb : Heartbeat} {now maxAttached : Nat} {isClient : NodeId → Bool}

end Leases

namespace Directory

def kept (report : TrafficReport) (known : NodeId → Bool) (maxLinks : Nat) : TrafficReport :=
  { report with links := keptLinks known maxLinks report.links [] }

variable {d : Directory} {relay : NodeId} {report : TrafficReport} {now : Nat} {known : NodeId → Bool}
  {maxLinks : Nat}

end Directory

def Session.standing (s : Session) : Nat × Nat × Bool := (s.exp, s.loginGen, s.synced)

namespace NetState

/-- What a message of a session that is over must leave alone. -/
structure Silent (ns ns' : NetState) (node : NodeId) : Prop where
  leases : ns'.leases = ns.leases
  reportedMtu : ns'.directory.reportedMtu = ns.directory.reportedMtu
  traffic : ns'.directory.traffic = ns.directory.traffic
  exitReadiness : ns'.directory.exitReadiness = ns.directory.exitReadiness
  published : ns'.directory.published = ns.directory.published
  session : (ns'.sessions[node]?).map Session.standing = (ns.sessions[node]?).map Session.standing

variable (ns : NetState) (node : NodeId)

theorem Silent.refl : ns.Silent ns node :=
  ⟨rfl, rfl, rfl, rfl, rfl, rfl⟩

def isClient (n : NodeId) : Bool :=
  ((ns.registry.members[n]?).map (fun r => r.role == .client)).getD false

end NetState

namespace NetState

variable {ns : NetState} {node : NodeId}

section Heartbeat

variable {role : Role} {hb : Heartbeat} {p : Publishing}

end Heartbeat

end NetState

namespace Control

variable {env : CoordText}

namespace DeadExample

open ControlExample

end DeadExample

end Control

end Nqvpn
