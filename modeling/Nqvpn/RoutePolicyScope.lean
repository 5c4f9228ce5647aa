import Nqvpn.TransportRoutes

/-!
# Where the route policy applies

A route policy is to hold for the routes in the host and for the table inside the
tunnel alike. A client passes its policy to both. A relay in its endpoint role has the
default policy in its table and none on its routes, so a prefix that is too wide for
the table is still routed into the device.
-/

namespace Nqvpn

open Routes

/-- The two programs with an endpoint. Only a client is given a policy. -/
inductive RoutingRole
  | client (policy : RoutePolicy)
  | relay
deriving DecidableEq, Repr

/-- What an endpoint reads when it reconciles a view. The underlay is unknown while a relay's
name is being resolved for the first time. -/
structure EndpointRouting where
  view : Snapshot
  nodeId : NodeId
  hosts : List IpNet
  nets : List IpNet
  localNets : List IpNet
  underlay : Option (List IpAddr)
  text : Spelling

namespace EndpointRouting

variable (e : EndpointRouting)

def mine : List IpNet := e.hosts ++ e.nets

def table : RoutingRole → PeerTable
  | .client policy =>
    (((PeerTable.new e.nodeId).setMine e.hosts e.nets).setPolicy policy).replaceAll e.view.members
  | .relay => ((PeerTable.new e.nodeId).setMine e.hosts e.nets).replaceAll e.view.members

def handed : RoutingRole → List IpNet
  | .client policy => (excludeLocal e.text (wantedRoutesWith e.view e.nodeId e.mine policy) e.localNets
      (e.underlay.getD [])).1
  | .relay =>
    match e.underlay with
    | none => []
    | some underlay =>
      (excludeLocal e.text (wantedRoutes e.view e.nodeId e.mine) e.localNets underlay).1

def Offers (p : IpNet) : Prop :=
  p ∈ e.view.reservedPrefixes.map IpNet.trunc ∨
    (∃ m ∈ e.view.members, m.nodeId ≠ e.nodeId ∧ p ∈ memberPrefixes m) ∧
      ∀ r ∈ e.view.reservedPrefixes.map IpNet.trunc, r.containsNet p = false

def Spares (underlay : List IpAddr) (p : IpNet) : Prop :=
  (∃ m ∈ e.mine, 0 < m.prefixLen ∧ m.containsNet p = true) ∨
    exclusionReason e.text p e.localNets underlay ≠ none

/-- For a relay whose underlay is known, whatever the view offers that is wider than the default policy
allows is spared for another reason. -/
def OffersNothingWide : RoutingRole → Prop
  | .client _ => True
  | .relay => ∀ underlay, e.underlay = some underlay →
      ∀ p, e.Offers p → (⟨none⟩ : RoutePolicy).permits p = false → e.Spares underlay p

end EndpointRouting

theorem PeerTable.policy_replaceAll (t : PeerTable) (ps : List PeerInfo) :
    (t.replaceAll ps).policy = t.policy := by
  have hfold (u : PeerTable) : (ps.foldl upsert u).policy = u.policy := by
    induction ps generalizing u with
    | nil => rfl
    | cons p ps ih => rw [List.foldl_cons, ih, upsert]
  exact hfold _

namespace Routes

variable {view : Snapshot} {nodeId : NodeId} {mine localNets : List IpNet} {w : IpNet}
  {underlay : List IpAddr} {text : Spelling}

theorem mem_wanted {policy : Option RoutePolicy} : w ∈ wanted view nodeId mine policy ↔
    (w ∈ (view.reservedPrefixes.map IpNet.trunc).filter (permitted policy) ∨
      (∃ m ∈ view.members, m.nodeId ≠ nodeId ∧ w ∈ memberPrefixes m ∧ permitted policy w) ∧
        ∀ r ∈ (view.reservedPrefixes.map IpNet.trunc).filter (permitted policy),
          r.containsNet w = false) ∧
      ∀ m ∈ mine, 0 < m.prefixLen → m.containsNet w = false := by
  simp [wanted, IpNet.mem_sortedSet, and_assoc]

theorem mem_excludeLocal {wanted : List IpNet} : w ∈ (excludeLocal text wanted localNets underlay).1 ↔
    w ∈ wanted ∧ exclusionReason text w localNets underlay = none := by
  simp [excludeLocal, Option.isNone_iff_eq_none]

theorem permits_of_wantedRoutesWith {policy : RoutePolicy}
    (h : w ∈ wantedRoutesWith view nodeId mine policy) : policy.permits w := by
  obtain ⟨hreserved | ⟨⟨m, -, -, -, hpermitted⟩, -⟩, -⟩ := mem_wanted.mp h
  · exact (List.mem_filter.mp hreserved).2
  · exact hpermitted

end Routes

namespace EndpointRouting

variable {e : EndpointRouting} {w : IpNet}

theorem mem_handed_relay {underlay : List IpAddr} (h : e.underlay = some underlay) :
    w ∈ e.handed .relay ↔ e.Offers w ∧ ¬ e.Spares underlay w := by
  have hall (p : IpNet) : permitted none p := rfl
  have hfilter (ps : List IpNet) : ps.filter (permitted none) = ps :=
    List.filter_eq_self.mpr fun p _ => hall p
  simp [handed, h, mem_excludeLocal, wantedRoutes, mem_wanted, Offers, Spares, hfilter, hall, and_assoc]

/-- Every prefix an endpoint routes is one its own table may hold, exactly if it is a client
or is offered nothing wide. -/
theorem handed_permitted_iff (e : EndpointRouting) (role : RoutingRole) :
    (∀ w ∈ e.handed role, (e.table role).policy.permits w = true) ↔ e.OffersNothingWide role := by
  cases role with
  | client policy =>
    have hpolicy : (e.table (.client policy)).policy = policy := PeerTable.policy_replaceAll ..
    refine ⟨fun _ => trivial, fun _ w hw => ?_⟩
    rw [hpolicy]
    exact permits_of_wantedRoutesWith (mem_excludeLocal.mp hw).1
  | relay =>
    have hpolicy : (e.table .relay).policy = ⟨none⟩ := PeerTable.policy_replaceAll ..
    rw [hpolicy]
    constructor
    · intro h underlay hu p hoffers hwide
      by_contra hspares
      have hpermits := h p ((mem_handed_relay hu).mpr ⟨hoffers, hspares⟩)
      rw [hwide] at hpermits
      cases hpermits
    · intro h w hw
      cases hu : e.underlay with
      | none =>
        simp [handed, hu] at hw
      | some underlay =>
        obtain ⟨hoffers, hspares⟩ := (mem_handed_relay hu).mp hw
        by_contra hwide
        exact hspares (h underlay hu w hoffers (by simpa using hwide))

def wideView : EndpointRouting where
  view := ⟨1, [⟨2, "gw", .relay, [.v4 0x40000000#32 ⟨4, by decide⟩], "", true, 0⟩], [], [], ⟨0, ""⟩, [], []⟩
  nodeId := 1
  hosts := []
  nets := []
  localNets := []
  underlay := some []
  text := ⟨fun _ => "", fun _ => ""⟩

/-- It is routed into the device, where the table refuses it. -/
theorem relay_routes_refused_prefix :
    wideView.handed .relay = [.v4 0x40000000#32 ⟨4, by decide⟩] ∧
      (wideView.table .relay).policy.permits (.v4 0x40000000#32 ⟨4, by decide⟩) = false ∧
      (wideView.table .relay).ownerOf (.v4 0x40000001#32) = none ∧
      ¬ ∀ w ∈ wideView.handed .relay, (wideView.table .relay).policy.permits w = true := by
  decide +kernel

end EndpointRouting

end Nqvpn
