import Nqvpn.PrefixTable
import Nqvpn.TransportRoutes

/-!
# Sender and receiver agree on ownership

A sender looks its destination up in a table without its own prefixes, a receiver checks the source
in a table without its own; both come from one view. A default is an exit marker and in neither
table, unless the endpoint has chosen that exit.
-/

namespace Nqvpn

open LongestMatch Routes LpmTable PeerTable List

def Snapshot.attributed (view : Snapshot) : List (IpNet × NodeId) :=
  view.members.flatMap fun m => m.prefixes.map fun p => (p, m.nodeId)

def Snapshot.longestMatch (view : Snapshot) (ip : IpAddr) : Option (IpNet × NodeId) :=
  (fill [] view.attributed).longestEntry ip

/-- Members are keyed by their ids, and prefixes other than defaults are truncated. -/
structure Snapshot.Tidy (view : Snapshot) : Prop where
  ids : (view.members.map (·.nodeId)).Nodup
  trunc : ∀ m ∈ view.members, ∀ p ∈ m.prefixes, isExitMarker p = false → p.trunc = p

namespace PeerTable

def reconcile (t : PeerTable) (view : Snapshot) (plan : RouteAllPlan) : PeerTable :=
  plan.exits.foldl (fun t e => t.setDefaultExit (defaultNet e.1) e.2) (t.replaceAll view.members)

def kept (t : PeerTable) (m : PeerInfo) : List (IpNet × NodeId) :=
  if m.nodeId ≠ t.myNodeId then
    (m.prefixes.filter fun n => !isExitMarker n && t.policy.permits n).map fun n => (n, m.nodeId)
  else []

variable {e : IpNet × NodeId} {t : PeerTable}

theorem mem_kept {m : PeerInfo} : e ∈ t.kept m ↔
    m.nodeId ≠ t.myNodeId ∧ e.1 ∈ m.prefixes ∧ isExitMarker e.1 = false ∧
      t.policy.permits e.1 ∧ e.2 = m.nodeId := by
  obtain ⟨n, id⟩ := e
  rw [kept]
  split_ifs with h
  · simp only [mem_map, mem_filter, Bool.and_eq_true, Bool.not_eq_true', Prod.mk.injEq]
    constructor
    · rintro ⟨n', ⟨hmem, hmarker, hpermits⟩, rfl, rfl⟩
      exact ⟨h, hmem, hmarker, hpermits, rfl⟩
    · rintro ⟨-, hmem, hmarker, hpermits, rfl⟩
      exact ⟨n, ⟨hmem, hmarker, hpermits⟩, rfl, rfl⟩
  · simp [h]

theorem lpm_upsert {p : PeerInfo} (h : ∀ e ∈ t.lpm.fill (t.kept p), e.2 = p.nodeId → e.1 ∈ p.prefixes) :
    (t.upsert p).lpm = t.lpm.fill (t.kept p) := by
  have hfill : (if p.nodeId ≠ t.myNodeId then
      (p.prefixes.filter fun n => !isExitMarker n && t.policy.permits n).foldl
        (fun lpm net => insert lpm net p.nodeId) t.lpm
      else t.lpm) = t.lpm.fill (t.kept p) := by
    rw [kept]
    split_ifs
    · rw [fill, foldl_map]
    · rfl
  have hstale : (t.lpm.fill (t.kept p)).filter (fun e => e.2 = p.nodeId ∧ e.1 ∉ p.prefixes) = [] := by
    rw [filter_eq_nil_iff]
    intro e he hboth
    simp only [Bool.decide_and, Bool.and_eq_true, decide_eq_true_eq] at hboth
    exact hboth.2 (h e he hboth.1)
  simp only [upsert, hfill, hstale, map_nil, foldl_nil]

theorem replaceAll_filled (t : PeerTable) {ms : List PeerInfo} (hids : (ms.map (·.nodeId)).Nodup)
    (htrunc : ∀ m ∈ ms, ∀ p ∈ m.prefixes, isExitMarker p = false → p.trunc = p) :
    (t.replaceAll ms).lpm = fill [] (ms.flatMap t.kept) ∧
      (t.replaceAll ms).myNodeId = t.myNodeId ∧ (t.replaceAll ms).policy = t.policy ∧
      (t.replaceAll ms).mineHosts = t.mineHosts ∧ (t.replaceAll ms).mineNets = t.mineNets := by
  induction ms using reverseRecOn with
  | nil => exact ⟨rfl, rfl, rfl, rfl, rfl⟩
  | append_singleton ms p ih =>
    rw [map_append, nodup_append] at hids
    obtain ⟨hlpm, hid, hpolicy, hhosts, hnets⟩ := ih hids.1 fun m hm =>
      htrunc m (mem_append_left _ hm)
    have hstep : t.replaceAll (ms ++ [p]) = (t.replaceAll ms).upsert p := by
      simp [replaceAll, foldl_append]
    have hkept : (t.replaceAll ms).kept p = t.kept p := by simp only [kept, hid, hpolicy]
    rw [hstep]
    refine ⟨?_, hid, hpolicy, hhosts, hnets⟩
    rw [lpm_upsert, hkept, hlpm, flatMap_append, fill_append, flatMap_singleton]
    rintro ⟨n, id⟩ he hown
    rw [hkept, hlpm, ← fill_append] at he
    obtain ⟨net, hmem, rfl⟩ := exists_of_mem_fill he
    rcases mem_append.mp hmem with hmem | hmem
    · -- No member before this one has its id.
      obtain ⟨m, hm, hkm⟩ := mem_flatMap.mp hmem
      have hid' := (mem_kept.mp hkm).2.2.2.2
      exact absurd (hid'.symm.trans hown) (hids.2.2 _ (mem_map_of_mem hm) _ (by simp))
    · obtain ⟨-, hpre, hmarker, -, -⟩ := mem_kept.mp hmem
      rw [htrunc p (by simp) net hpre hmarker]
      exact hpre

variable {t : PeerTable} {view : Snapshot}

/-- Under a policy that permits all of a view, the table lacks its owner's prefixes and the exit
markers, and nothing else. -/
theorem flatMap_kept (hpermits : ∀ m ∈ view.members, ∀ p ∈ m.prefixes, t.policy.permits p) :
    view.members.flatMap t.kept =
      view.attributed.filter fun e => decide (e.2 ≠ t.myNodeId) && !isExitMarker e.1 := by
  have hmember : ∀ m ∈ view.members, t.kept m = (m.prefixes.map fun p => (p, m.nodeId)).filter
      fun e => decide (e.2 ≠ t.myNodeId) && !isExitMarker e.1 := by
    intro m hm
    rw [kept, filter_map]
    split_ifs with hid
    · congr 1
      apply filter_congr
      intro p hp
      simp [hpermits m hm p hp, hid]
    · simp [Function.comp_def, hid]
  rw [Snapshot.attributed, filter_flatMap]
  exact flatMap_congr hmember

/-! ### Chosen exits -/

theorem mem_setDefaultExit {net : IpNet} {node : NodeId} :
    e ∈ (t.setDefaultExit net node).lpm ↔ (e = (net.trunc, node) ∧ node ≠ t.myNodeId) ∨
      e ∈ t.lpm ∧ (e.1 = net.trunc → node = t.myNodeId) := by
  rw [setDefaultExit]
  split_ifs with h
  · simp [mem_insert, h]
  · simp [not_not.mp h]

theorem defaultNet_spec (v6 : Bool) : (defaultNet v6).trunc = defaultNet v6 ∧
    (defaultNet v6).prefixLen = 0 := by
  cases v6 <;> decide

theorem defaultNet_injective : Function.Injective defaultNet := by decide

theorem settings_setDefaultExit (net : IpNet) (node : NodeId) :
    (t.setDefaultExit net node).myNodeId = t.myNodeId ∧
      (t.setDefaultExit net node).mineHosts = t.mineHosts ∧
      (t.setDefaultExit net node).mineNets = t.mineNets := by
  rw [setDefaultExit]
  split_ifs
  · exact ⟨rfl, rfl, rfl⟩
  · exact ⟨rfl, rfl, rfl⟩

theorem sound_setDefaultExit (h : Sound t.lpm) (net : IpNet) (node : NodeId) :
    Sound (t.setDefaultExit net node).lpm := by
  rw [setDefaultExit]
  split_ifs
  · exact h.insert net node
  · exact h

/-- A table whose defaults are those of the exits `xs`, and that is otherwise as before. -/
structure Exits (before : PeerTable) (xs : List (Bool × NodeId)) (t : PeerTable) : Prop where
  myNodeId : t.myNodeId = before.myNodeId
  mineHosts : t.mineHosts = before.mineHosts
  mineNets : t.mineNets = before.mineNets
  sound : Sound t.lpm
  mem : ∀ e, e ∈ t.lpm ↔
    e ∈ before.lpm ∨ ∃ v6, (v6, e.2) ∈ xs ∧ e.1 = defaultNet v6 ∧ e.2 ≠ before.myNodeId

theorem exits_foldl {xs : List (Bool × NodeId)} (hsound : Sound t.lpm)
    (ht : ∀ e ∈ t.lpm, e.1.prefixLen ≠ 0)
    (hxs : ∀ v6 a b, (v6, a) ∈ xs → (v6, b) ∈ xs → a = b) :
    Exits t xs (xs.foldl (fun t x => t.setDefaultExit (defaultNet x.1) x.2) t) := by
  induction xs using reverseRecOn with
  | nil => exact ⟨rfl, rfl, rfl, hsound, by simp⟩
  | append_singleton xs x ih =>
    obtain ⟨v6, node⟩ := x
    have h := ih fun v a b ha hb => hxs v a b (mem_append_left _ ha) (mem_append_left _ hb)
    rw [foldl_append, foldl_cons, foldl_nil]
    obtain ⟨hid, hhosts, hnets⟩ := settings_setDefaultExit
      (t := xs.foldl (fun t x => t.setDefaultExit (defaultNet x.1) x.2) t) (defaultNet v6) node
    refine ⟨hid.trans h.myNodeId, hhosts.trans h.mineHosts, hnets.trans h.mineNets,
      sound_setDefaultExit h.sound _ _, fun e => ?_⟩
    rw [mem_setDefaultExit, (defaultNet_spec v6).1, h.mem, h.myNodeId]
    constructor
    · rintro (⟨rfl, hne⟩ | ⟨he | ⟨v, hmem, hnet, hne⟩, -⟩)
      · exact .inr ⟨v6, by simp, rfl, hne⟩
      · exact .inl he
      · exact .inr ⟨v, mem_append_left _ hmem, hnet, hne⟩
    · rintro (he | ⟨v, hmem, hnet, hne⟩)
      · refine .inr ⟨.inl he, fun hdefault => absurd ?_ (ht e he)⟩
        rw [hdefault, (defaultNet_spec v6).2]
      · by_cases hsame : v = v6
        · -- The family's exit is this one, whichever place it was listed at.
          subst hsame
          have hnode : e.2 = node := hxs v e.2 node hmem (by simp)
          exact .inl ⟨Prod.ext hnet hnode, hnode ▸ hne⟩
        · refine .inr ⟨.inr ⟨v, ?_, hnet, hne⟩, fun hdefault => ?_⟩
          · simpa [hsame] using hmem
          · exact absurd (defaultNet_injective (hnet.symm.trans hdefault)) hsame

end PeerTable

/-! ### Endpoints of one view -/

/-- An endpoint of member `m` that reconciled the view under the default policy, with or without
route-all, and whose own addresses and networks are what the view attributes to it. -/
structure EndpointOf (view : Snapshot) (m : PeerInfo) where
  prior : PeerTable
  plan : RouteAllPlan
  myNodeId : prior.myNodeId = m.nodeId
  policy : prior.policy = ⟨none⟩
  mine : ∀ n, n ∈ prior.mineHosts ++ prior.mineNets ↔ n ∈ m.prefixes
  chosen : plan = .default ∨ ∃ transport toPin pinned via attached,
    plan = routeAllPlan transport toPin pinned view via attached

namespace EndpointOf

variable {view : Snapshot} {m : PeerInfo} (e : EndpointOf view m)

def table : PeerTable := e.prior.reconcile view e.plan

theorem planned : ∃ transport toPin pinned via attached,
    Planned transport toPin pinned view via attached e.plan := by
  rcases e.chosen with h | ⟨transport, toPin, pinned, via, attached, h⟩
  · exact ⟨[], [], [], none, none, h ▸ planned_default⟩
  · exact ⟨transport, toPin, pinned, via, attached, h ▸ planned_routeAllPlan⟩

theorem exit_owns {v6 : Bool} {node : NodeId} (h : (v6, node) ∈ e.plan.exits) :
    ∃ x ∈ view.members, x.nodeId = node ∧ ∃ p ∈ x.prefixes, p.trunc = defaultNet v6 := by
  obtain ⟨transport, toPin, pinned, via, attached, hplan⟩ := e.planned
  obtain ⟨x, hx, hid, howns⟩ := exitGateway_owns (hplan.exits v6 node h)
  simp only [ownsDefault, Bool.and_eq_true, any_eq_true, decide_eq_true_eq] at howns
  exact ⟨x, hx, hid, howns.2⟩

variable (hview : view.Tidy)
  (hpermits : ∀ x ∈ view.members, ∀ p ∈ x.prefixes, (⟨none⟩ : RoutePolicy).permits p = true)
include hview hpermits

theorem lpm_replaceAll : (e.prior.replaceAll view.members).lpm =
    fill [] (view.attributed.filter fun x =>
      decide (x.2 ≠ m.nodeId) && !isExitMarker x.1) := by
  rw [(e.prior.replaceAll_filled hview.ids hview.trunc).1, flatMap_kept, e.myNodeId]
  rwa [e.policy]

theorem exits_table : Exits (e.prior.replaceAll view.members) e.plan.exits e.table := by
  obtain ⟨transport, toPin, pinned, via, attached, hplan⟩ := e.planned
  refine exits_foldl ?_ (fun x hx => ?_) fun v6 a b ha hb => ?_
  · rw [e.lpm_replaceAll hview hpermits]
    exact sound_nil.fill _
  · rw [e.lpm_replaceAll hview hpermits] at hx
    obtain ⟨net, hmem, htrunc⟩ := exists_of_mem_fill hx
    have hmarker := (mem_filter.mp hmem).2
    simp only [isExitMarker, Bool.and_eq_true, Bool.not_eq_true', beq_eq_false_iff_ne] at hmarker
    rw [← htrunc, IpNet.prefixLen_trunc]
    exact hmarker.2
  · exact Option.some.inj ((hplan.exits v6 a ha).symm.trans (hplan.exits v6 b hb))

theorem mem_table {x : IpNet × NodeId} : x ∈ e.table.lpm ↔
    x ∈ fill [] (view.attributed.filter fun x =>
      decide (x.2 ≠ m.nodeId) && !isExitMarker x.1) ∨
    ∃ v6, (v6, x.2) ∈ e.plan.exits ∧ x.1 = defaultNet v6 ∧ x.2 ≠ m.nodeId := by
  have hid : (e.prior.replaceAll view.members).myNodeId = m.nodeId :=
    (e.prior.replaceAll_filled hview.ids hview.trunc).2.1.trans e.myNodeId
  rw [(e.exits_table hview hpermits).mem, e.lpm_replaceAll hview hpermits, hid]

theorem owns_table {ip : IpAddr} {n : IpNet} (hn : n ∈ m.prefixes) (hip : n.containsAddr ip) :
    e.table.owns ip := by
  have hexits := e.exits_table hview hpermits
  obtain ⟨-, -, -, hhosts, hnets⟩ := e.prior.replaceAll_filled hview.ids hview.trunc
  rw [owns, isMineHost, hexits.mineHosts, hexits.mineNets, hhosts, hnets,
    ← any_append, any_eq_true]
  exact ⟨n, (e.mine n).mpr hn, hip⟩

theorem attributed_of_mem_table {x : IpNet × NodeId} (hx : x ∈ e.table.lpm) :
    x.2 ≠ m.nodeId ∧ ∃ y ∈ view.members, y.nodeId = x.2 ∧ ∃ p ∈ y.prefixes, p.trunc = x.1 := by
  rcases (e.mem_table hview hpermits).mp hx with hx | ⟨v6, hexit, hnet, hne⟩
  · obtain ⟨net, hmem, htrunc⟩ := exists_of_mem_fill hx
    obtain ⟨hmem, hkeep⟩ := mem_filter.mp hmem
    simp only [Bool.and_eq_true, decide_eq_true_eq] at hkeep
    obtain ⟨y, hy, hmap⟩ := mem_flatMap.mp hmem
    obtain ⟨p, hp, heq⟩ := mem_map.mp hmap
    obtain ⟨rfl, hid⟩ := Prod.mk.inj heq
    exact ⟨hkeep.1, y, hy, hid, p, hp, htrunc⟩
  · obtain ⟨y, hy, hid, p, hp, htrunc⟩ := e.exit_owns hexit
    exact ⟨hne, y, hy, hid, p, hp, htrunc.trans hnet.symm⟩

end EndpointOf

section
variable {view : Snapshot} {n : IpNet} {ip : IpAddr}

theorem Snapshot.Tidy.eq_of_nodeId (h : view.Tidy) {x y : PeerInfo} (hx : x ∈ view.members)
    (hy : y ∈ view.members) (hid : x.nodeId = y.nodeId) : x = y :=
  inj_on_of_nodup_map h.ids hx hy hid

theorem containsAddr_defaultNet (ip : IpAddr) : (defaultNet ip.isIpv6).containsAddr ip := by
  cases ip <;> simp [defaultNet, IpAddr.isIpv6, IpNet.containsAddr, IpNet.mask]

variable {m : PeerInfo} {id : NodeId}

theorem EndpointOf.le_longestMatch (e : EndpointOf view m) (hview : view.Tidy)
    (hpermits : ∀ x ∈ view.members, ∀ p ∈ x.prefixes, (⟨none⟩ : RoutePolicy).permits p)
    (hmatch : view.longestMatch ip = some (n, id)) {x : IpNet × NodeId} (hx : x ∈ e.table.lpm)
    (hcovers : x.1.containsAddr ip) : x.1.prefixLen ≤ n.prefixLen := by
  have hlongest := (longestEntry_eq_some (sound_nil.fill view.attributed)).mp hmatch
  obtain ⟨-, y, hy, -, p, hp, htrunc⟩ := e.attributed_of_mem_table hview hpermits hx
  have hattributed : (p, y.nodeId) ∈ view.attributed :=
    mem_flatMap.mpr ⟨y, hy, mem_map.mpr ⟨p, hp, rfl⟩⟩
  obtain ⟨id', hmem⟩ := exists_mem_fill hattributed
  rw [htrunc] at hmem
  exact hlongest.le (x.1, id') hmem hcovers

/-- Where the view's longest match of an address is another member, an endpoint looks the address
up to that member: through the matching prefix, or, if that is a default, through its exit. -/
theorem EndpointOf.ownerOf_eq (e : EndpointOf view m) (hview : view.Tidy)
    (hpermits : ∀ x ∈ view.members, ∀ p ∈ x.prefixes, (⟨none⟩ : RoutePolicy).permits p)
    (hid : id ≠ m.nodeId) (hmatch : view.longestMatch ip = some (n, id))
    (hexit : n.isDefault → (ip.isIpv6, id) ∈ e.plan.exits) : e.table.ownerOf ip = some id := by
  have hsound := (e.exits_table hview hpermits).sound
  have hlongest := (longestEntry_eq_some (sound_nil.fill view.attributed)).mp hmatch
  have hfound : ∃ net, (net, id) ∈ e.table.lpm ∧ net.containsAddr ip ∧
      net.prefixLen = n.prefixLen := by
    by_cases hdefault : n.isDefault
    · refine ⟨defaultNet ip.isIpv6, (e.mem_table hview hpermits).mpr (.inr ?_),
        containsAddr_defaultNet ip, ?_⟩
      · exact ⟨_, hexit hdefault, rfl, hid⟩
      · have hzero : n.prefixLen = 0 := by simpa [IpNet.isDefault] using hdefault
        rw [(defaultNet_spec _).2, hzero]
    · refine ⟨n, (e.mem_table hview hpermits).mpr (.inl ?_), hlongest.covers, rfl⟩
      refine mem_fill_filter hlongest.mem fun net htrunc => ?_
      have hlen : net.prefixLen = n.prefixLen := by rw [← htrunc, IpNet.prefixLen_trunc]
      simpa [hid, isExitMarker, IpNet.isDefault, hlen] using hdefault
  obtain ⟨net, hmem, hcovers, hlen⟩ := hfound
  have hbest : e.table.lpm.longestEntry ip = some (net, id) := by
    refine (longestEntry_eq_some hsound).mpr ⟨hmem, hcovers, fun x hx hx' => ?_⟩
    simp only [hlen]
    exact e.le_longestMatch hview hpermits hmatch hx hx'
  rw [ownerOf, lookup_eq_map, hbest]
  rfl

/-- For every view and any two members that reconciled it under the default policy: a packet whose
source the view's longest match gives to `A` and whose destination `A`'s table resolves to `B` is
accepted by `B` as coming from `A`, provided that `B` has chosen `A` as its exit where that match is
a default. -/
theorem sender_receiver_agree (hview : view.Tidy)
    (hpermits : ∀ x ∈ view.members, ∀ p ∈ x.prefixes, (⟨none⟩ : RoutePolicy).permits p = true)
    {A B : PeerInfo} (hB : B ∈ view.members) (a : EndpointOf view A) (b : EndpointOf view B)
    {packet : Packet} {src dst : IpAddr} (hpacket : packet.parseInnerAddrs = some (src, dst))
    (hsrc : view.longestMatch src = some (n, A.nodeId))
    (hdst : a.table.ownerOf dst = some B.nodeId)
    (hexit : n.isDefault = true → (src.isIpv6, A.nodeId) ∈ b.plan.exits) :
    b.table.checkIngress A.nodeId packet = .accept := by
  rw [ownerOf, lookup_eq_map, Option.map_eq_some_iff] at hdst
  obtain ⟨⟨net, id⟩, hentry, rfl⟩ := hdst
  have hlongest :=
    (longestEntry_eq_some (a.exits_table hview hpermits).sound).mp hentry
  obtain ⟨hne, y, hy, hid, p, hp, htrunc⟩ := a.attributed_of_mem_table hview hpermits hlongest.mem
  obtain rfl : y = B := hview.eq_of_nodeId hy hB hid
  refine checkIngress_eq_accept.mpr ⟨src, dst, hpacket, ?_, ?_⟩
  · exact b.ownerOf_eq hview hpermits (fun h => hne (hid.symm.trans h.symm)) hsrc hexit
  · refine b.owns_table hview hpermits hp ?_
    rw [← IpNet.containsAddr_trunc, htrunc]
    exact hlongest.covers

end

/-! ### A relay that fronts a LAN and the internet, and a client -/

namespace OwnershipExample

theorem lan_len : 24 < 33 := by decide

theorem exit_len : 0 < 33 := by decide

def gateway : PeerInfo :=
  ⟨1, "gw", .relay, [IpNet.host (.v4 0x0a000001#32), .v4 0xc0a80100#32 ⟨24, lan_len⟩,
    .v4 0#32 ⟨0, exit_len⟩], "", true, 1⟩

def laptop : PeerInfo := ⟨2, "laptop", .client, [IpNet.host (.v4 0x0a000002#32)], "", true, 1⟩

def view : Snapshot := ⟨1, [gateway, laptop], [], [], ⟨1400, ""⟩, [], []⟩

def endpoint (m : PeerInfo) : EndpointOf view m where
  prior := (new m.nodeId).setMine m.prefixes []
  plan := .default
  myNodeId := rfl
  policy := rfl
  mine n := by simp [setMine]
  chosen := Or.inl rfl

/-- An IPv4 header without options, from `src` to the laptop. -/
def packetFrom (src : List UInt8) : Packet :=
  [0x45, 0, 0, 20, 0, 0, 0, 0, 64, 17, 0, 0] ++ src ++ [10, 0, 0, 2]

theorem tidy : view.Tidy := by
  refine ⟨by decide, ?_⟩
  decide +kernel

theorem permits : ∀ x ∈ view.members, ∀ p ∈ x.prefixes, (⟨none⟩ : RoutePolicy).permits p := by
  decide +kernel

end OwnershipExample

open OwnershipExample in
/-- A packet from the LAN behind the gateway to the laptop. -/
theorem sender_receiver_agree_lan :
    (endpoint laptop).table.checkIngress gateway.nodeId (packetFrom [192, 168, 1, 7]) = .accept :=
  have hpacket : (packetFrom [192, 168, 1, 7]).parseInnerAddrs =
      some (.v4 0xc0a80107#32, .v4 0x0a000002#32) := by decide +kernel
  sender_receiver_agree (n := .v4 0xc0a80100#32 ⟨24, by decide⟩) tidy permits (by decide)
    (endpoint gateway) (endpoint laptop) hpacket (by decide +kernel) (by decide +kernel) (by decide)

open OwnershipExample in
/-- A packet from the internet, which the view's longest match gives to the gateway by its default:
the laptop, which has chosen no exit, drops it. -/
theorem exit_sourced_packet_dropped :
    ¬∀ (view : Snapshot), view.Tidy →
      (∀ x ∈ view.members, ∀ p ∈ x.prefixes, (⟨none⟩ : RoutePolicy).permits p = true) →
      ∀ A ∈ view.members, ∀ B ∈ view.members, ∀ (a : EndpointOf view A) (b : EndpointOf view B)
        (packet : Packet) (src dst : IpAddr) (n : IpNet),
        packet.parseInnerAddrs = some (src, dst) →
        view.longestMatch src = some (n, A.nodeId) →
        a.table.ownerOf dst = some B.nodeId → b.table.checkIngress A.nodeId packet = .accept := by
  intro hall
  have haccept := hall view tidy permits gateway (by decide) laptop (by decide) (endpoint gateway)
    (endpoint laptop) (packetFrom [8, 8, 8, 8]) (.v4 0x08080808#32) (.v4 0x0a000002#32)
    (.v4 0#32 ⟨0, by decide⟩) (by decide +kernel) (by decide +kernel) (by decide +kernel)
  revert haccept
  decide +kernel

end Nqvpn
