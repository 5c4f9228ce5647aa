import Nqvpn.EndpointRoutes

/-!
# The tunnel's own transport

The routes a client installs come from four sources: member routes, the halves of a
catch-all, the connected networks of the host, and the host routes that pin transport
to the real gateway. Under longest match over all of them, an address the client dials
itself enters the tunnel only in a family that failed closed, and then the other family
still carries the whole transport.
-/

namespace Nqvpn

open Routes LongestMatch List

/-- What a client decides its routes from: the view, its configuration, and what it
finds on the host. `waiting` is set while the first lookup of a relay runs and nothing
is armed yet; `pin` is how pinning turns out. -/
structure ClientRouting where
  view : Snapshot
  nodeId : NodeId
  mine : List IpNet
  policy : RoutePolicy
  localNets : List IpNet
  underlay : List IpAddr
  resolvers : List IpAddr
  routeAll : Bool
  via : Option String
  attached : Option NodeId
  waiting : Bool
  pin : List IpAddr → List IpAddr
  text : Spelling

namespace ClientRouting

variable (c : ClientRouting)

def keep : List IpNet :=
  (excludeLocal c.text (wantedRoutesWith c.view c.nodeId c.mine c.policy) c.localNets c.underlay).1

def toPin : List IpAddr := underlayToPin (c.underlay ++ c.resolvers) c.localNets

def pinned : List IpAddr := if c.routeAll then c.pin c.toPin else []

def plan : RouteAllPlan :=
  if c.routeAll && !c.waiting then
    routeAllPlan c.underlay c.toPin c.pinned c.view c.via c.attached
  else .default

def installed : List IpNet := c.keep ++ c.plan.nets

def elsewhere : List IpNet := c.localNets ++ c.pinned.map IpNet.host

def EntersTunnel (u : IpAddr) : Prop :=
  ∃ w ∈ c.installed, IsLongest IpNet.prefixLen (·.containsAddr u = true)
    (c.installed ++ c.elsewhere) w

end ClientRouting

/-! ### Prefixes -/

theorem IpNet.host_containsAddr (u : IpAddr) : (IpNet.host u).containsAddr u := by
  cases u <;> simp [host, containsAddr]

theorem IpNet.prefixLen_host (u : IpAddr) : 1 < (IpNet.host u).prefixLen := by
  cases u <;> simp [host, prefixLen]

variable {w : IpNet} {v6 : Bool}

theorem Routes.prefixLen_half (h : w ∈ catchAllHalves v6) : w.prefixLen = 1 := by
  cases v6
  · rcases mem_pair.mp h with rfl | rfl <;> rfl
  · rcases mem_pair.mp h with rfl | rfl <;> rfl

theorem Routes.isIpv6_half (h : w ∈ catchAllHalves v6) : w.addr.isIpv6 = v6 := by
  cases v6
  · rcases mem_pair.mp h with rfl | rfl <;> rfl
  · rcases mem_pair.mp h with rfl | rfl <;> rfl

theorem IpNet.family_of_containsAddr {u : IpAddr} (h : w.containsAddr u) : u.isIpv6 = w.addr.isIpv6 := by
  cases w with
  | v4 a len =>
    cases u with
    | v4 b => rfl
    | v6 b => cases h
  | v6 a len =>
    cases u with
    | v4 b => cases h
    | v6 b => rfl

/-! ### The plan -/

namespace Routes

variable {view : Snapshot} {via : Option String} {attached : Option NodeId} {v6 : Bool}
  {transport toPin pinned : List IpAddr}

theorem exitGateway_owns {node : NodeId} (h : exitGateway view via attached v6 = some node) :
    ∃ m ∈ view.members, m.nodeId = node ∧ ownsDefault v6 m := by
  rcases Option.or_eq_some_iff.mp h with h | ⟨-, h⟩
  · rcases Option.or_eq_some_iff.mp h with h | ⟨-, h⟩
    · obtain ⟨name, -, h⟩ := Option.bind_eq_some_iff.mp h
      obtain ⟨m, hm, rfl⟩ := Option.map_eq_some_iff.mp h
      have howns := find?_some hm
      exact ⟨m, mem_of_find?_eq_some hm, rfl, by simp_all⟩
    · obtain ⟨-, husable⟩ := Option.filter_eq_some_iff.mp h
      obtain ⟨m, hm, hid⟩ := any_eq_true.mp husable
      simp only [Bool.and_eq_true, decide_eq_true_eq] at hid
      exact ⟨m, hm, hid.1, hid.2⟩
  · obtain ⟨m, hm, rfl⟩ := mem_map.mp (min?_mem h)
    obtain ⟨hmem, howns⟩ := mem_filter.mp hm
    exact ⟨m, hmem, rfl, howns⟩

/-- A family that a plan activates has an exit and can spare its default route. -/
structure Activates (transport toPin pinned : List IpAddr) (view : Snapshot) (via : Option String)
    (attached : Option NodeId) (v6 : Bool) (node : NodeId) : Prop where
  exit : exitGateway view via attached v6 = some node
  safe : transportLost transport toPin pinned v6 = true → transportWhole transport toPin pinned (!v6) = true

/-- What is in a plan, family by family. -/
structure Planned (transport toPin pinned : List IpAddr) (view : Snapshot) (via : Option String)
    (attached : Option NodeId) (plan : RouteAllPlan) : Prop where
  nets : ∀ w ∈ plan.nets, ∃ v6 node, w ∈ catchAllHalves v6 ∧
    Activates transport toPin pinned view via attached v6 node ∧
    ((unpinned toPin pinned v6).isEmpty = false → v6 ∈ plan.failedClosed)
  exits : ∀ v6 node, (v6, node) ∈ plan.exits → exitGateway view via attached v6 = some node

theorem Planned.family {plan : RouteAllPlan} (h : Planned transport toPin pinned view via attached plan)
    (v6 : Bool) : Planned transport toPin pinned view via attached
      (planFamily transport toPin pinned view via attached plan v6) := by
  unfold planFamily
  cases hexit : exitGateway view via attached v6 with
  | none => exact h
  | some node =>
    by_cases hsafe : (!transportLost transport toPin pinned v6 ||
        transportWhole transport toPin pinned !v6)
    · simp only [if_pos hsafe]
      have hactivates : Activates transport toPin pinned view via attached v6 node := by
        refine ⟨hexit, fun hlost => ?_⟩
        simpa [hlost] using hsafe
      refine ⟨fun w hw => ?_, fun v6' node' he => ?_⟩
      · rcases mem_append.mp hw with hw | hw
        · obtain ⟨v6', node', hhalf, hact, hclosed⟩ := h.nets w hw
          refine ⟨v6', node', hhalf, hact, fun hne => ?_⟩
          split_ifs
          · exact hclosed hne
          · exact mem_append_left _ (hclosed hne)
        · exact ⟨v6, node, hw, hactivates, fun hne => by simp [hne]⟩
      · rcases mem_append.mp he with he | he
        · exact h.exits v6' node' he
        · obtain ⟨rfl, rfl⟩ := Prod.mk.inj (mem_singleton.mp he)
          exact hexit
    · simp only [if_neg hsafe]
      exact h

theorem planned_default : Planned transport toPin pinned view via attached .default :=
  ⟨by simp [RouteAllPlan.default], by simp [RouteAllPlan.default]⟩

theorem planned_routeAllPlan : Planned transport toPin pinned view via attached
    (routeAllPlan transport toPin pinned view via attached) :=
  (planned_default.family false).family true

end Routes

namespace ClientRouting

variable {c : ClientRouting} {u : IpAddr}

theorem planned (c : ClientRouting) :
    Planned c.underlay c.toPin c.pinned c.view c.via c.attached c.plan := by
  unfold plan
  split_ifs
  · exact planned_routeAllPlan
  · exact planned_default

variable {w : IpNet}

theorem mem_keep (h : w ∈ c.keep) : (∀ l ∈ c.localNets, l.containsNet w = false) ∧
    ∀ u ∈ c.underlay, w.containsAddr u → isProtected w c.localNets u := by
  have hnone := (mem_filter.mp h).2
  exact exclusionReason_eq_none.mp (Option.isNone_iff_eq_none.mp hnone)

theorem not_longest_of_keep (hw : w ∈ c.keep) (hu : u ∈ c.underlay) :
    ¬ IsLongest IpNet.prefixLen (·.containsAddr u) (c.installed ++ c.elsewhere) w := by
  intro h
  obtain ⟨l, hl, hcovers⟩ := any_eq_true.mp ((mem_keep hw).2 u hu h.covers)
  simp only [Bool.and_eq_true, decide_eq_true_eq] at hcovers
  have hle := h.le l (mem_append_right _ (mem_append_left _ hl)) hcovers.1
  omega

theorem lost_of_half (hlocal : ∀ l ∈ c.localNets, 1 < l.prefixLen) {v6 : Bool} (hw : w ∈ catchAllHalves v6)
    (hu : u ∈ c.underlay)
    (h : IsLongest IpNet.prefixLen (·.containsAddr u) (c.installed ++ c.elsewhere) w) :
    u.isIpv6 = v6 ∧ u ∈ unpinned c.toPin c.pinned v6 := by
  have hlen := prefixLen_half hw
  have hfamily : u.isIpv6 = v6 := (IpNet.family_of_containsAddr h.covers).trans (isIpv6_half hw)
  have hpinned : u ∉ c.pinned := by
    intro hp
    have hmem : IpNet.host u ∈ c.installed ++ c.elsewhere :=
      mem_append_right _ (mem_append_right _ (mem_map_of_mem hp))
    have hle := h.le _ hmem (IpNet.host_containsAddr u)
    have hhost := IpNet.prefixLen_host u
    omega
  have hcarried : c.localNets.any (·.containsAddr u) = false := by
    rw [any_eq_false]
    intro l hl hcovers
    have hle := h.le l (mem_append_right _ (mem_append_left _ hl)) hcovers
    have hlong := hlocal l hl
    omega
  have hpin : u ∈ c.toPin := by
    simp [toPin, underlayToPin, hu, hcarried]
  refine ⟨hfamily, ?_⟩
  simp [unpinned, hpin, hfamily, hpinned]

theorem lost_of_entersTunnel (hlocal : ∀ l ∈ c.localNets, 1 < l.prefixLen) (hu : u ∈ c.underlay)
    (h : c.EntersTunnel u) : u ∈ unpinned c.toPin c.pinned u.isIpv6 ∧
      u.isIpv6 ∈ c.plan.failedClosed ∧
      transportWhole c.underlay c.toPin c.pinned (!u.isIpv6) := by
  obtain ⟨w, hw, hlongest⟩ := h
  rcases mem_append.mp hw with hkeep | hnets
  · exact absurd hlongest (not_longest_of_keep hkeep hu)
  · obtain ⟨v6, node, hhalf, hactivates, hclosed⟩ := c.planned.nets w hnets
    obtain ⟨rfl, hlost⟩ := lost_of_half hlocal hhalf hu hlongest
    refine ⟨hlost, hclosed ?_, hactivates.safe ?_⟩
    · rw [isEmpty_eq_false_iff]
      exact ne_nil_of_mem hlost
    · exact any_eq_true.mpr ⟨u, hlost, by simpa using hu⟩

/-- Route-all never severs the tunnel's own transport. -/
theorem transport_stays_off_tunnel (c : ClientRouting) (hlocal : ∀ l ∈ c.localNets, 1 < l.prefixLen) :
    (∀ u ∈ c.underlay, c.EntersTunnel u → u.isIpv6 ∈ c.plan.failedClosed ∧
        (∃ u' ∈ c.underlay, u'.isIpv6 = !u.isIpv6) ∧
        ∀ u' ∈ c.underlay, u'.isIpv6 = (!u.isIpv6) → ¬ c.EntersTunnel u') ∧
      (∀ v6, ∀ w ∈ catchAllHalves v6, w ∈ c.plan.nets → ∃ m ∈ c.view.members, ownsDefault v6 m = true) ∧
      (∀ w ∈ c.keep, ∀ l ∈ c.localNets, l.containsNet w = false) ∧
      ∀ v6 node, (v6, node) ∈ c.plan.exits →
        ∃ m ∈ c.view.members, m.nodeId = node ∧ ownsDefault v6 m = true := by
  refine ⟨fun u hu henters => ?_, fun v6 w hw hnets => ?_, fun w hw => (mem_keep hw).1,
    fun v6 node he => exitGateway_owns (c.planned.exits v6 node he)⟩
  · obtain ⟨-, hclosed, hwhole⟩ := lost_of_entersTunnel hlocal hu henters
    simp only [transportWhole, Bool.and_eq_true, Bool.not_eq_true', isEmpty_eq_false_iff,
      all_eq_true, mem_filter, decide_eq_true_eq, Bool.or_eq_true, and_imp] at hwhole
    obtain ⟨hsome, hpinned⟩ := hwhole
    obtain ⟨u', hu'⟩ := exists_mem_of_ne_nil _ hsome
    obtain ⟨hmem, hfamily⟩ := mem_filter.mp hu'
    refine ⟨hclosed, ⟨u', hmem, by simpa using hfamily⟩, fun v hv hfam henters' => ?_⟩
    obtain ⟨hlost, -⟩ := lost_of_entersTunnel hlocal hv henters'
    simp only [unpinned, mem_filter, Bool.and_eq_true, decide_eq_true_eq] at hlost
    rcases hpinned v hv hfam with hnot | hpin
    · exact hnot hlost.1
    · exact hlost.2.2 hpin
  · obtain ⟨v6', node, hhalf, hactivates, -⟩ := c.planned.nets w hnets
    obtain rfl : v6 = v6' := (isIpv6_half hw).symm.trans (isIpv6_half hhalf)
    obtain ⟨m, hm, -, howns⟩ := exitGateway_owns hactivates.exit
    exact ⟨m, hm, howns⟩

namespace RoutingExample

def relay4 : IpAddr := .v4 0xc0000201#32
def relay6 : IpAddr := .v6 0x20010db8000000000000000000000001#128

/-- An exit for both families, and a relay with an address in each. Only the IPv6 one can
be pinned. -/
def dual : ClientRouting where
  view := ⟨1, [⟨7, "exit", .relay, [defaultNet false, defaultNet true], "", true, 0⟩], [], [],
    ⟨0, ""⟩, [], []⟩
  nodeId := 1
  mine := []
  policy := ⟨none⟩
  localNets := [.v4 0xc0a80100#32 ⟨24, by decide⟩]
  underlay := [relay4, relay6]
  resolvers := []
  routeAll := true
  via := none
  attached := none
  waiting := false
  pin ips := ips.filter (·.isIpv6)
  text := ⟨fun _ => "", fun _ => ""⟩

theorem dual_entersTunnel : dual.EntersTunnel relay4 := by
  have hinstalled : dual.installed = catchAllHalves false ++ catchAllHalves true := by decide +kernel
  refine ⟨.v4 (1#32 <<< 31) ⟨1, by decide⟩, ?_, ?_, by decide, ?_⟩
  · decide
  · decide
  · decide +kernel

end RoutingExample

open RoutingExample in
/-- IPv4 failed closed; the relay is dialed over IPv6. -/
theorem transport_stays_off_tunnel_dual : dual.plan.failedClosed = [false] ∧
    dual.EntersTunnel relay4 ∧ ¬ dual.EntersTunnel relay6 := by
  have hlocal : ∀ l ∈ dual.localNets, 1 < l.prefixLen := by decide
  obtain ⟨-, -, hother⟩ := (transport_stays_off_tunnel dual hlocal).1 relay4 (by decide) dual_entersTunnel
  exact ⟨by decide +kernel, dual_entersTunnel, hother relay6 (by decide) rfl⟩

end ClientRouting

end Nqvpn
