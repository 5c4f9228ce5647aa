import Nqvpn.LongestMatch
import Nqvpn.PeerTable

/-!
# The routes of an endpoint

What a node wants to route into its device is a function of the view: the reserved
prefixes and what the other members own, less its own space. What it keeps of that
captures nothing the host already routes. Under route-all each family that can spare
its default route gets a catch-all, in two halves.
-/

namespace Nqvpn

namespace IpAddr

def isIpv6 : IpAddr → Bool
  | v4 _ => false
  | v6 _ => true

def order : IpAddr → Nat ×ₗ Nat
  | v4 a => toLex (4, a.toNat)
  | v6 a => toLex (6, a.toNat)

def sortedSet (ips : List IpAddr) : List IpAddr :=
  ips.dedup.insertionSort fun a b => a.order ≤ b.order

@[simp] theorem mem_sortedSet {ips : List IpAddr} {ip : IpAddr} : ip ∈ sortedSet ips ↔ ip ∈ ips := by
  simp [sortedSet]

end IpAddr

def IpNet.sortedSet (nets : List IpNet) : List IpNet :=
  nets.dedup.insertionSort fun a b => a.prefixOrder ≤ b.prefixOrder

@[simp] theorem IpNet.mem_sortedSet {nets : List IpNet} {net : IpNet} :
    net ∈ IpNet.sortedSet nets ↔ net ∈ nets := by
  simp [sortedSet]

namespace Routes

/-! ### Member routes -/

def memberPrefixes (m : PeerInfo) : List IpNet :=
  (m.prefixes.filter fun p => !isExitMarker p).map IpNet.trunc

def permitted (policy : Option RoutePolicy) (p : IpNet) : Bool := policy.all (·.permits p)

variable (view : Snapshot) (myNodeId : NodeId) (mine : List IpNet) (v6 : Bool)

/-- Routes the view says this node should have, before local exclusion. Members inside a
reserved prefix need no route of their own. -/
def wanted (policy : Option RoutePolicy) :
    List IpNet :=
  let covers := (view.reservedPrefixes.map IpNet.trunc).filter (permitted policy)
  let others := view.members.filter (·.nodeId ≠ myNodeId)
  let alone := (others.flatMap fun m => (memberPrefixes m).filter (permitted policy)).filter fun p =>
    !covers.any (·.containsNet p)
  -- Never our own space; a default is the space behind us.
  (IpNet.sortedSet (covers ++ alone)).filter fun w =>
    !mine.any fun m => decide (0 < m.prefixLen) && m.containsNet w

def wantedRoutes : List IpNet :=
  wanted view myNodeId mine none

def wantedRoutesWith (policy : RoutePolicy) :
    List IpNet :=
  wanted view myNodeId mine (some policy)

/-- How prefixes and addresses are spelled in reasons. -/
structure Spelling where
  net : IpNet → String
  ip : IpAddr → String

/-- A connected network more specific than `w` carries the address. -/
def isProtected (w : IpNet) (localNets : List IpNet) (u : IpAddr) : Bool :=
  localNets.any fun l => l.containsAddr u && decide (w.prefixLen < l.prefixLen)

def exclusionReason (text : Spelling) (w : IpNet) (localNets : List IpNet) (underlay : List IpAddr) :
    Option String :=
  match localNets.find? (·.containsNet w) with
  | some l => some s!"inside local interface prefix {text.net l}"
  | none =>
    (underlay.find? fun u => w.containsAddr u && !isProtected w localNets u).map fun u =>
      s!"would capture underlay address {text.ip u}"

/-- Wanted routes that are installable, and those that are excluded, with reasons. -/
def excludeLocal (text : Spelling) (wanted localNets : List IpNet) (underlay : List IpAddr) :
    List IpNet × List (IpNet × String) :=
  (wanted.filter fun w => (exclusionReason text w localNets underlay).isNone,
    wanted.filterMap fun w => (exclusionReason text w localNets underlay).map fun r => (w, r))

theorem exclusionReason_eq_none {text : Spelling} {w : IpNet} {localNets : List IpNet}
    {underlay : List IpAddr} : exclusionReason text w localNets underlay = none ↔
      (∀ l ∈ localNets, l.containsNet w = false) ∧
        ∀ u ∈ underlay, w.containsAddr u → isProtected w localNets u := by
  unfold exclusionReason
  cases hfind : localNets.find? (·.containsNet w) with
  | some l =>
    have hl := List.find?_some hfind
    have hmem := List.mem_of_find?_eq_some hfind
    simp only [reduceCtorEq, false_iff, not_and]
    intro hnone
    rw [hnone l hmem] at hl
    cases hl
  | none =>
    have hnone : ∀ l ∈ localNets, l.containsNet w = false := by
      simpa using List.find?_eq_none.mp hfind
    simp only [Option.map_eq_none_iff, List.find?_eq_none, Bool.and_eq_true, Bool.not_eq_true',
      not_and, Bool.not_eq_false]
    exact ⟨fun h => ⟨hnone, h⟩, fun h => h.2⟩

/-! ### Route-all -/

def catchAllHalves : List IpNet :=
  if v6 then [.v6 0#128 ⟨1, by decide⟩, .v6 (1#128 <<< 127) ⟨1, by decide⟩]
  else [.v4 0#32 ⟨1, by decide⟩, .v4 (1#32 <<< 31) ⟨1, by decide⟩]

def defaultNet : IpNet :=
  if v6 then .v6 0#128 ⟨0, by decide⟩ else .v4 0#32 ⟨0, by decide⟩

def underlayToPin (underlay : List IpAddr) (localNets : List IpNet) : List IpAddr :=
  IpAddr.sortedSet (underlay.filter fun ip => !localNets.any (·.containsAddr ip))

def ownsDefault (m : PeerInfo) : Bool :=
  m.online && m.prefixes.any fun p => p.trunc = defaultNet v6

/-- The exit of a family: the preferred member, else the relay we are attached to, else
the lowest id, of those that own the family's default. -/
def exitGateway (via : Option String) (attached : Option NodeId) (v6 : Bool) :
    Option NodeId :=
  let usable (id : NodeId) : Bool := view.members.any fun m => m.nodeId = id && ownsDefault v6 m
  let preferred := via.bind fun name =>
    (view.members.find? fun m => m.name = name && ownsDefault v6 m).map (·.nodeId)
  (preferred.or (attached.filter usable)).or
    ((view.members.filter (ownsDefault v6)).map (·.nodeId)).min?

structure RouteAllPlan where
  nets : List IpNet
  exits : List (Bool × NodeId)
  failedClosed : List Bool
deriving DecidableEq, Repr

def RouteAllPlan.default : RouteAllPlan := ⟨[], [], []⟩

section Plan

variable (transport toPin pinned : List IpAddr)
variable (v6 : Bool)

def unpinned : List IpAddr := toPin.filter fun ip => ip.isIpv6 = v6 && ip ∉ pinned

def transportLost : Bool := (unpinned toPin pinned v6).any (· ∈ transport)

def transportWhole : Bool :=
  let fam := transport.filter (·.isIpv6 = v6)
  !fam.isEmpty && fam.all fun ip => ip ∉ toPin || ip ∈ pinned

variable (view : Snapshot) (via : Option String) (attached : Option NodeId)

def planFamily (plan : RouteAllPlan) (v6 : Bool) : RouteAllPlan :=
  match exitGateway view via attached v6 with
  | none => plan
  | some node =>
    if !transportLost transport toPin pinned v6 || transportWhole transport toPin pinned !v6 then
      { nets := plan.nets ++ catchAllHalves v6
        exits := plan.exits ++ [(v6, node)]
        failedClosed := if (unpinned toPin pinned v6).isEmpty then plan.failedClosed
          else plan.failedClosed ++ [v6] }
    else plan

def routeAllPlan : RouteAllPlan :=
  [false, true].foldl (planFamily transport toPin pinned view via attached) .default

end Plan

end Routes

end Nqvpn
