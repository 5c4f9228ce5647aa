import Nqvpn.TunnelAddresses

/-!
# Addresses a member can use

The allocator looks for a new address among the hosts of a range only. What it hands out without
looking is another matter: the address a member has on record, and the one it takes back from the
client that is gone longest, are only known to lie in the range. Once the operator has edited the
range, such an address can be its network or its broadcast address.
-/

namespace Nqvpn

open Fallible IpNet Option List

namespace NetworkConfig

variable (cfg : NetworkConfig)

/-- The network or the broadcast address of the IPv4 range; the two shortest ranges have neither. -/
def EdgeV4 (ip : BitVec 32) : Prop :=
  ∃ net len, cfg.ipv4Cidr = some (net, len) ∧ len.val < 31 ∧
    (ip = mask net len ∨ ip = last net len)

def EdgeV6 (ip : BitVec 128) : Prop :=
  ∃ net len, cfg.ipv6Cidr = some (net, len) ∧ len.val < 128 ∧ ip = mask net len

def UsableV4 (ip : BitVec 32) : Prop :=
  (∃ net len, cfg.ipv4Cidr = some (net, len) ∧ (v4 net len).containsAddr (.v4 ip) = true) ∧
    ¬ cfg.EdgeV4 ip

def UsableV6 (ip : BitVec 128) : Prop :=
  (∃ net len, cfg.ipv6Cidr = some (net, len) ∧ (v6 net len).containsAddr (.v6 ip) = true) ∧
    ¬ cfg.EdgeV6 ip

section Ranges

variable {env : CoordText} {resolve : Resolver} {cfg : NetworkConfig}

theorem findSome?_of_countP {α β : Type} {p : α → Bool} {g : α → Option β} {l : List α} {x : α} {y : β}
    (hpg : ∀ a, p a = (g a).isSome) (hcount : l.countP p ≤ 1) (hx : x ∈ l) (hy : g x = some y) :
    l.findSome? g = some y := by
  induction l with
  | nil => cases hx
  | cons a l ih =>
    cases ha : g a with
    | none =>
      have hpa : ¬ p a := by simp [hpg, ha]
      rw [countP_cons_of_neg hpa] at hcount
      rcases mem_cons.mp hx with rfl | hx
      · rw [ha] at hy
        cases hy
      · rw [findSome?_cons_of_isNone (by simp [ha])]
        exact ih hcount hx
    | some z =>
      have hpa : p a := by simp [hpg, ha]
      rw [countP_cons_of_pos hpa] at hcount
      have hrest : l.countP p = 0 := by omega
      rcases mem_cons.mp hx with rfl | hx
      · rw [findSome?_cons_of_isSome (by simp [ha]), hy]
      · have hpx := countP_eq_zero.mp hrest x hx
        rw [hpg, hy] at hpx
        exact absurd rfl hpx

theorem exists_ipv4Cidr_of_inTunnel (hcheck : cfg.check env resolve = .ok ()) {ip : BitVec 32}
    (hip : cfg.inTunnel (.v4 ip)) :
    ∃ net len, cfg.ipv4Cidr = some (net, len) ∧ (v4 net len).containsAddr (.v4 ip) := by
  simp only [NetworkConfig.check, bind_eq_ok, ensure_eq_ok] at hcheck
  obtain ⟨-, -, -, hone, -⟩ := hcheck
  obtain ⟨c, hc, hcontains⟩ := any_eq_true.mp hip
  cases c with
  | v4 net len =>
    refine ⟨net, len, ?_, hcontains⟩
    exact findSome?_of_countP (fun a => by cases a <;> rfl) hone.le hc rfl
  | v6 net len => cases hcontains

theorem exists_ipv6Cidr_of_inTunnel (hcheck : cfg.check env resolve = .ok ()) {ip : BitVec 128}
    (hip : cfg.inTunnel (.v6 ip)) :
    ∃ net len, cfg.ipv6Cidr = some (net, len) ∧ (v6 net len).containsAddr (.v6 ip) := by
  simp only [NetworkConfig.check, bind_eq_ok, ensure_eq_ok] at hcheck
  obtain ⟨-, -, -, -, -, hone, -⟩ := hcheck
  obtain ⟨c, hc, hcontains⟩ := any_eq_true.mp hip
  cases c with
  | v4 net len => cases hcontains
  | v6 net len =>
    refine ⟨net, len, ?_, hcontains⟩
    exact findSome?_of_countP (fun a => by cases a <;> rfl) hone hc rfl

end Ranges

end NetworkConfig

namespace Ipam

variable {i : Nat} {ip : Option (BitVec 32)} {id : NodeId} {leases : Leases} {eligible : BitVec 128 → Bool}

/-! ### Who loses an address -/

section Reclaim

variable {α : Type} (f : Family α) (cfg : NetworkConfig) (reg : Registry) (leases : Leases) (now : Nat)
  (member : String) (eligible : α → Bool)

/-- Of those who can lose an address, the client `id` is gone longest. -/
def LongestGone (id : NodeId) (ip : α) : Prop :=
  ∃ since, CanLose f cfg reg leases now member eligible id since ip ∧
    ∀ id' since' ip', CanLose f cfg reg leases now member eligible id' since' ip' →
      toLex (since, id) ≤ toLex (since', id')

variable {f cfg reg leases now member eligible}
variable {id : NodeId}

theorem CanLose.unique {since since' : Nat} {ip ip' : α}
    (h : CanLose f cfg reg leases now member eligible id since ip)
    (h' : CanLose f cfg reg leases now member eligible id since' ip') : since = since' ∧ ip = ip' := by
  obtain ⟨r, hr, rfl⟩ := h
  obtain ⟨r', hr', rfl⟩ := h'
  cases hr.record.symm.trans hr'.record
  exact ⟨rfl, some.inj (hr.assigned.symm.trans hr'.assigned)⟩

theorem LongestGone.unique {id' : NodeId} {ip ip' : α}
    (h : LongestGone f cfg reg leases now member eligible id ip)
    (h' : LongestGone f cfg reg leases now member eligible id' ip') : id = id' ∧ ip = ip' := by
  obtain ⟨since, hlose, hleast⟩ := h
  obtain ⟨since', hlose', hleast'⟩ := h'
  have hkey := le_antisymm (hleast id' since' ip' hlose') (hleast' id since ip hlose)
  obtain ⟨-, rfl⟩ := Prod.mk.inj (toLex.injective hkey)
  exact ⟨rfl, (hlose.unique hlose').2⟩

theorem longestGone_of_mem_argmin {c : Nat × NodeId × α}
    (h : c ∈ (candidates f cfg reg leases now member eligible).argmin departure) :
    LongestGone f cfg reg leases now member eligible c.2.1 c.2.2 := by
  refine ⟨c.1, mem_candidates.mp (argmin_mem h), fun id' since' ip' hlose => ?_⟩
  have hin : (since', id', ip') ∈ candidates f cfg reg leases now member eligible :=
    mem_candidates.mpr hlose
  exact le_of_mem_argmin (f := departure) hin h

theorem reclaimable_eq_some_iff {victim : NodeId} {ip : α} :
    reclaimable cfg reg leases now member f.assigned eligible = some (victim, ip) ↔
      LongestGone f cfg reg leases now member eligible victim ip := by
  rw [reclaimable_eq_argmin, map_eq_some_iff]
  constructor
  · rintro ⟨c, hc, hvictim⟩
    obtain ⟨rfl, rfl⟩ := Prod.mk.inj hvictim
    exact longestGone_of_mem_argmin hc
  · intro h
    obtain ⟨since, hlose, -⟩ := id h
    -- Somebody can lose an address, so somebody is gone longest.
    have hsome : candidates f cfg reg leases now member eligible ≠ [] :=
      ne_nil_of_mem (mem_candidates (c := (since, victim, ip)).mpr hlose)
    obtain ⟨c, hc⟩ := ne_none_iff_exists'.mp (mt (argmin_eq_none (f := departure)).mp hsome)
    obtain ⟨hid, hip⟩ := (longestGone_of_mem_argmin hc).unique h
    exact ⟨c, hc, Prod.ext hid hip⟩

end Reclaim

/-! ### What is handed out without looking -/

/-- An address a member is given without looking for a free one: its static one, the one it has on
record, or, when every host is taken, that of the client gone longest. -/
inductive Inherits {α : Type} [DecidableEq α] (f : Family α) (pool : Pool α) (inTunnel : α → Bool)
    (cfg : NetworkConfig) (reg : Registry) (reclaim : Option Leases) (now : Nat) (member : String)
    (static : Option α) : α → Prop
  | static {ip : α} (configured : static = some ip) :
    Inherits f pool inTunnel cfg reg reclaim now member static ip
  | kept {ip : α} {r : MemberRecord} (dynamic : static = none) (own : reg.byName member = some r)
    (assigned : f.assigned r = some ip) (inside : inTunnel ip = true) :
    Inherits f pool inTunnel cfg reg reclaim now member static ip
  | reclaimed {ip : α} {leases : Leases} {victim : NodeId} (dynamic : static = none)
    (unhoused : ((reg.byName member).bind f.assigned).filter inTunnel = none)
    (full : ∀ i < pool.size, ¬ Free f cfg reg member (pool.host i)) (allowed : reclaim = some leases)
    (gone : LongestGone f cfg reg leases now member
      (fun ip => !isHard cfg f.configured ip && pool.contains ip) victim ip) :
    Inherits f pool inTunnel cfg reg reclaim now member static ip

section Pick

variable {α : Type} [DecidableEq α] (f : Family α) (pool : Pool α) (inTunnel : α → Bool)
  (cfg : NetworkConfig) (reg : Registry) (reclaim : Option Leases) (now : Nat) (member : String)
  (static : Option α) (cursor : Nat)

def pick : Option α :=
  (static.or (((reg.byName member).bind f.assigned).filter inTunnel)).or
    (((scanFromCursor pool.size pool.host (takenBy cfg reg member f.assigned f.configured) cursor).map
        Prod.fst).or
      ((reclaim.bind fun leases => reclaimable cfg reg leases now member f.assigned
        (fun ip => !isHard cfg f.configured ip && pool.contains ip)).map Prod.snd))

variable {f pool inTunnel cfg reg reclaim now member static cursor}

theorem scan_eq_none_iff :
    scanFromCursor pool.size pool.host (takenBy cfg reg member f.assigned f.configured) cursor = none ↔
      ∀ i < pool.size, ¬ Free f cfg reg member (pool.host i) := by
  rw [scanFromCursor_eq_none]
  refine forall₂_congr fun i _ => ?_
  rw [← takenBy_eq_false_iff, Bool.not_eq_false]

theorem Inherits.pick_eq {ip : α} (h : Inherits f pool inTunnel cfg reg reclaim now member static ip) :
    pick f pool inTunnel cfg reg reclaim now member static cursor = some ip := by
  unfold pick
  cases h with
  | static configured => rw [configured, some_or, some_or]
  | kept dynamic own assigned inside =>
    rw [dynamic, own, bind_some, assigned, filter_some, if_pos inside, none_or,
      some_or]
  | reclaimed dynamic unhoused full allowed gone =>
    rw [dynamic, unhoused, scan_eq_none_iff.mpr full, allowed, bind_some,
      reclaimable_eq_some_iff.mpr gone]
    rfl

theorem pick_cases {ip : α}
    (h : pick f pool inTunnel cfg reg reclaim now member static cursor = some ip) :
    Inherits f pool inTunnel cfg reg reclaim now member static ip ∨
      ∃ i < pool.size, pool.host i = ip := by
  rcases or_eq_some_iff.mp h with hpast | ⟨hpast, h⟩
  · left
    rcases or_eq_some_iff.mp hpast with hstatic | ⟨hdynamic, hkept⟩
    · exact .static hstatic
    · obtain ⟨hown, hinside⟩ := filter_eq_some_iff.mp hkept
      obtain ⟨r, hr, hassigned⟩ := bind_eq_some_iff.mp hown
      exact .kept hdynamic hr hassigned hinside
  · obtain ⟨hdynamic, hunhoused⟩ := or_eq_none_iff.mp hpast
    rcases or_eq_some_iff.mp h with hscan | ⟨hscan, h⟩
    · right
      obtain ⟨⟨ip', next⟩, hfound, rfl⟩ := map_eq_some_iff.mp hscan
      exact (exists_of_scanFromCursor hfound).1
    · left
      obtain ⟨⟨victim, ip'⟩, hvictim, rfl⟩ := map_eq_some_iff.mp h
      obtain ⟨leases, hallowed, hgone⟩ := bind_eq_some_iff.mp hvictim
      exact .reclaimed hdynamic hunhoused (scan_eq_none_iff.mp (map_eq_none_iff.mp hscan)) hallowed
        (reclaimable_eq_some_iff.mp hgone)

end Pick

/-! ### The allocator -/

variable {cfg : NetworkConfig} {reg reg' : Registry} {reclaim : Option Leases} {now : Nat}
  {member : String}

theorem Picks.eq_pick {α : Type} [DecidableEq α] {f : Family α} {pool : Pool α} {static ip : Option α}
    {inTunnel : α → Bool} {family : String} {reg₀ : Registry}
    (h : Picks f pool cfg reg reclaim now member family
      (static.or (((reg₀.byName member).bind f.assigned).filter inTunnel)) ip reg')
    (htaken : takenBy cfg reg member f.assigned f.configured = takenBy cfg reg₀ member f.assigned f.configured)
    (hreclaim : ∀ leases eligible, reclaimable cfg reg leases now member f.assigned eligible =
      reclaimable cfg reg₀ leases now member f.assigned eligible) :
    ip = pick f pool inTunnel cfg reg₀ reclaim now member static (reg.allocCursor[family]?.getD 0) := by
  have hsearch : (search f pool cfg reg reclaim now member family).map Prod.fst = _ := Option.map_or
  rw [Option.map_map, Option.map_map, htaken] at hsearch
  simp only [hreclaim] at hsearch
  unfold pick
  cases h with
  | past hpast => rw [hpast, Option.some_or]
  | found hpast hfound =>
    rw [hpast, Option.none_or]
    exact (congrArg (Option.map Prod.fst) hfound).symm.trans hsearch
  | nothing hpast hnone =>
    rw [hpast, Option.none_or]
    exact (congrArg (Option.map Prod.fst) hnone).symm.trans hsearch

def apartFromV4 (r : MemberRecord) : MemberRecord := { r with ip4 := none, loginGen := 0 }

def Alike (reg reg' : Registry) : Prop :=
  ∀ id : NodeId, (reg'.members[id]?).map apartFromV4 = (reg.members[id]?).map apartFromV4

theorem Grant.alike (h : Grant v4 cfg reg reclaim now member ip reg') :
    Alike reg reg' := by
  intro id
  rcases h.members id with hsame | ⟨_, _, _, r, -, -, hr, -, hlost⟩
  · rw [hsame]
  · rw [hlost, hr.record]
    rfl

theorem Alike.symm (h : Alike reg reg') : Alike reg' reg := fun id => (h id).symm

theorem Alike.record (h : Alike reg reg') {r : MemberRecord} (hr : reg.members[id]? = some r) :
    ∃ r', reg'.members[id]? = some r' ∧ apartFromV4 r' = apartFromV4 r := by
  have hid := h id
  rw [hr, map_some] at hid
  exact map_eq_some_iff.mp hid

theorem Alike.free (h : Alike reg reg') {ip : BitVec 128} (hfree : Free v6 cfg reg member ip) :
    Free v6 cfg reg' member ip := by
  refine ⟨fun id r' hr' hname => ?_, hfree.unreserved⟩
  obtain ⟨r, hr, halike⟩ := h.symm.record hr'
  have hname' : r.name = r'.name := (congrArg MemberRecord.name halike :)
  have hip : r.ip6 = r'.ip6 := (congrArg MemberRecord.ip6 halike :)
  have hother := hfree.unassigned id r hr (hname' ▸ hname)
  exact fun heq => hother (hip.trans heq)

theorem Alike.takenBy (h : Alike reg reg') :
    takenBy cfg reg' member v6.assigned v6.configured = takenBy cfg reg member v6.assigned v6.configured := by
  funext ip
  refine Bool.eq_iff_iff.mpr (not_iff_not.mp ?_)
  rw [Bool.not_eq_true, Bool.not_eq_true, takenBy_eq_false_iff, takenBy_eq_false_iff]
  exact ⟨h.symm.free, h.free⟩

theorem Alike.canLose {since : Nat} {ip : BitVec 128} (h : Alike reg reg')
    (hlose : CanLose v6 cfg reg leases now member eligible id since ip) :
    CanLose v6 cfg reg' leases now member eligible id since ip := by
  obtain ⟨r, hr, hsince⟩ := hlose
  obtain ⟨r', hr', halike⟩ := h.record hr.record
  -- Neither who can lose an address nor since when depends on what a grant changes.
  have habandoned : abandoned cfg leases now member id r' = abandoned cfg leases now member id r :=
    (congrArg (abandoned cfg leases now member id) halike :)
  have hgone : goneSince leases id r' = goneSince leases id r :=
    (congrArg (goneSince leases id) halike :)
  have hip : r'.ip6 = r.ip6 := (congrArg MemberRecord.ip6 halike :)
  exact ⟨r', ⟨hr', habandoned.trans hr.abandoned, hip.trans hr.assigned, hr.eligible⟩, hgone.trans hsince⟩

theorem Alike.reclaimable (h : Alike reg reg') :
    reclaimable cfg reg' leases now member v6.assigned eligible =
      reclaimable cfg reg leases now member v6.assigned eligible := by
  refine ext fun found => ?_
  rw [reclaimable_eq_some_iff, reclaimable_eq_some_iff]
  constructor
  · rintro ⟨since, hlose, hleast⟩
    exact ⟨since, h.symm.canLose hlose, fun id' since' ip' h' => hleast id' since' ip' (h.canLose h')⟩
  · rintro ⟨since, hlose, hleast⟩
    exact ⟨since, h.canLose hlose, fun id' since' ip' h' => hleast id' since' ip' (h.symm.canLose h')⟩

theorem Allocated.eq_pick {preferred4 : Option (BitVec 32)} {preferred6 : Option (BitVec 128)}
    {granted : Granted} {m : MemberCfg} {reg₁ : Registry}
    (h : Allocated cfg reg reclaim now member preferred4 preferred6 granted m reg₁ reg') :
    ∃ cursor4 cursor6,
      granted.ip4 = pick v4 (v4Pool cfg) (fun ip => cfg.inTunnel (.v4 ip)) cfg reg reclaim now member
        (preferred4.or m.preferredIp4) cursor4 ∧
      granted.ip6 = pick v6 (v6Pool cfg) (fun ip => cfg.inTunnel (.v6 ip)) cfg reg reclaim now member
        (preferred6.or m.preferredIp6) cursor6 := by
  -- The second family works on what the first has left, but for what matters to it.
  have halike := h.grants.1.alike
  exact ⟨_, _, h.pick4.eq_pick rfl fun _ _ => rfl,
    h.pick6.eq_pick halike.takenBy fun _ _ => halike.reclaimable⟩

/-! ### Hosts -/

theorem usableV4_host (hi : i < (v4Pool cfg).size) : cfg.UsableV4 ((v4Pool cfg).host i) := by
  refine ⟨v4Pool_contains_iff.mp (v4Pool_contains_host hi), ?_⟩
  rintro ⟨net, len, hcidr, hlen, hedge⟩
  simp only [v4Pool, hcidr, v4Hosts, if_neg (Nat.not_le.mpr hlen)] at hi hedge
  have hlast := (last net len).isLt
  have hip : (BitVec.ofNat 32 ((mask net len).toNat + 1 + i)).toNat =
      (mask net len).toNat + 1 + i := by
    exact Nat.mod_eq_of_lt (by omega)
  rcases hedge with hedge | hedge
  · have hnat := congrArg BitVec.toNat hedge
    omega
  · have hnat := congrArg BitVec.toNat hedge
    omega

theorem usableV6_host (hi : i < (v6Pool cfg).size) : cfg.UsableV6 ((v6Pool cfg).host i) := by
  refine ⟨v6Pool_contains_iff.mp (v6Pool_contains_host hi), ?_⟩
  rintro ⟨net, len, hcidr, -, hedge⟩
  simp only [v6Pool, hcidr] at hi hedge
  have hbound := lt_of_lt_of_le hi (min_le_left _ _)
  have hlast := (last net len).isLt
  have hip : (BitVec.ofNat 128 ((mask net len).toNat + 1 + i)).toNat =
      (mask net len).toNat + 1 + i := by
    exact Nat.mod_eq_of_lt (by omega)
  have hnat := congrArg BitVec.toNat hedge
  omega

end Ipam

/-! ### Joins -/

namespace NetState

def InheritsV4 (ns : NetState) (name : String) (m : MemberCfg) (t : Clock) (ip : BitVec 32) : Prop :=
  m.wantVpnIp.getD true = true ∧
    Ipam.Inherits Ipam.v4 (Ipam.v4Pool ns.cfg) (fun ip => ns.cfg.inTunnel (.v4 ip)) ns.cfg ns.registry
      (if !ns.inGrace t.now then some ns.leases else none) t.reclaimNow name m.preferredIp4 ip

def InheritsV6 (ns : NetState) (name : String) (m : MemberCfg) (t : Clock) (ip : BitVec 128) : Prop :=
  m.wantVpnIp.getD true = true ∧
    Ipam.Inherits Ipam.v6 (Ipam.v6Pool ns.cfg) (fun ip => ns.cfg.inTunnel (.v6 ip)) ns.cfg ns.registry
      (if !ns.inGrace t.now then some ns.leases else none) t.reclaimNow name m.preferredIp6 ip

variable {env : CoordText} {resolve : Resolver} {ns : NetState} {name presented : String}
  {req : JoinRequest} {peerIp : String} {signing : Signing} {t : Clock} {db : DbOutcome}

theorem join_allots {c : Claims} {resp : JoinResponse}
    (h : (ns.join env name presented req peerIp signing t db).2 = .ok (c, resp)) :
    ∃ m role reg, ns.cfg.memberByName name = some (m, role) ∧
      ns.Allots env name m t ⟨resp.ip4, resp.ip6⟩ reg := by
  unfold join at h
  cases hplan : ns.joinPlan env name presented req peerIp t with
  | error err =>
    rw [hplan] at h
    cases h
  | ok plan =>
    rw [hplan] at h
    simp only at h
    split_ifs at h
    obtain ⟨-, rfl⟩ := Prod.mk.inj (Except.ok.inj h)
    obtain ⟨granted, reg, relayAddr, hp⟩ := joinPlan_eq_ok hplan
    refine ⟨plan.member, plan.role, reg, (filter_eq_some_iff.mp hp.authentic).1, ?_⟩
    have hgranted : (⟨plan.record.ip4, plan.record.ip6⟩ : Granted) = granted := by
      rw [hp.signs.ip4, hp.signs.ip6]
    exact hgranted ▸ hp.allots

theorem Allots.cases {m : MemberCfg} {role : Role} {granted : Granted} {reg : Registry}
    (hm : ns.cfg.memberByName name = some (m, role)) (h : ns.Allots env name m t granted reg) :
    (∀ ip, ns.InheritsV4 name m t ip → granted.ip4 = some ip) ∧
      (∀ ip, granted.ip4 = some ip → ns.InheritsV4 name m t ip ∨ ns.cfg.UsableV4 ip) ∧
      (∀ ip, ns.InheritsV6 name m t ip → granted.ip6 = some ip) ∧
      ∀ ip, granted.ip6 = some ip → ns.InheritsV6 name m t ip ∨ ns.cfg.UsableV6 ip := by
  unfold Allots at h
  split_ifs at h with hwant
  · obtain ⟨m', role', reg₁, hm', halloc⟩ := Ipam.allocateInner_eq_ok h
    cases hm'.symm.trans hm
    obtain ⟨cursor4, cursor6, hip4, hip6⟩ := halloc.eq_pick
    rw [Option.or_self] at hip4 hip6
    refine ⟨fun ip hin => ?_, fun ip hip => ?_, fun ip hin => ?_, fun ip hip => ?_⟩
    · rw [hip4]
      exact hin.2.pick_eq
    · rcases Ipam.pick_cases (hip4.symm.trans hip) with hin | ⟨i, hi, rfl⟩
      · exact .inl ⟨hwant, hin⟩
      · exact .inr (Ipam.usableV4_host hi)
    · rw [hip6]
      exact hin.2.pick_eq
    · rcases Ipam.pick_cases (hip6.symm.trans hip) with hin | ⟨i, hi, rfl⟩
      · exact .inl ⟨hwant, hin⟩
      · exact .inr (Ipam.usableV6_host hi)
  · obtain ⟨rfl, -⟩ := h
    refine ⟨fun ip hin => absurd hin.1 hwant, ?_, fun ip hin => absurd hin.1 hwant, ?_⟩
    · intro ip hip
      cases hip
    · intro ip hip
      cases hip

end NetState

/-! ### A range that is widened -/

namespace RangeExample

def cfg : NetworkConfig :=
  { NetworkExample.cfg with cidrs := [.v4 0x0a000000#32 ⟨31, Nat.le_add_right 32 1⟩] }

def start : NetState := NetState.created .byteText (NetworkExample.reading 0) cfg (Registry.new "u")

def widen : LockedOp :=
  .admin [] (NetworkExample.reading 60) (.updateNetwork
    ⟨"acme", (0x0a000000#32, ⟨24, Nat.le_add_right 25 8⟩), none, SettingsCfg.default⟩)

def rejoin (ns : NetState) (t : Nat) : NetState × Except ApiError (Claims × JoinResponse) :=
  ns.join .byteText "ann" "a1" ⟨"a1", "k", "k"⟩ "host" ⟨[], fun _ => [], 0⟩ (NetworkExample.reading t).clock
    (NetworkExample.reading t).db

end RangeExample

namespace NetState

variable {env : CoordText} {resolve : Resolver} {ns : NetState} {name presented : String}
  {req : JoinRequest} {peerIp : String} {signing : Signing} {t : Clock} {db : DbOutcome}

/-- A join of a network whose configuration has been validated returns usable addresses exactly if
nothing it hands out without looking is a network or broadcast address. -/
theorem granted_usable_iff (hvalid : ns.cfg.check env resolve = .ok ()) {c : Claims} {resp : JoinResponse}
    (h : (ns.join env name presented req peerIp signing t db).2 = .ok (c, resp)) {m : MemberCfg}
    {role : Role} (hm : ns.cfg.memberByName name = some (m, role)) :
    ((m.preferredIp4 = none → ∀ ip, resp.ip4 = some ip → ns.cfg.UsableV4 ip) ∧
        ∀ ip, resp.ip6 = some ip → ns.cfg.UsableV6 ip) ↔
      (m.preferredIp4 = none → ∀ ip, ns.InheritsV4 name m t ip → ¬ ns.cfg.EdgeV4 ip) ∧
        ∀ ip, ns.InheritsV6 name m t ip → ¬ ns.cfg.EdgeV6 ip := by
  obtain ⟨m', role', reg, hm', hallots⟩ := join_allots h
  cases hm'.symm.trans hm
  obtain ⟨hgives4, hcases4, hgives6, hcases6⟩ := hallots.cases hm
  obtain ⟨htunnel4, htunnel6⟩ := hallots.inTunnel
  constructor
  · rintro ⟨h4, h6⟩
    exact ⟨fun hdynamic ip hin => (h4 hdynamic ip (hgives4 ip hin)).2,
      fun ip hin => (h6 ip (hgives6 ip hin)).2⟩
  · rintro ⟨h4, h6⟩
    refine ⟨fun hdynamic ip hip => ?_, fun ip hip => ?_⟩
    · rcases hcases4 ip hip with hin | husable
      · exact ⟨NetworkConfig.exists_ipv4Cidr_of_inTunnel hvalid (htunnel4 ip hip), h4 hdynamic ip hin⟩
      · exact husable
    · rcases hcases6 ip hip with hin | husable
      · exact ⟨NetworkConfig.exists_ipv6Cidr_of_inTunnel hvalid (htunnel6 ip hip), h6 ip hin⟩
      · exact husable

open RangeExample

/-- Ann's first join: nobody is on record, so what it returns is a host. -/
theorem granted_usable_iff_first : ∃ c resp, (rejoin start 50).2 = .ok (c, resp) ∧
    resp.ip4 = some 0x0a000000#32 ∧ start.cfg.UsableV4 0x0a000000#32 := by
  have hjoin : (rejoin start 50).2.toOption.map (fun x => x.2.ip4) = some (some 0x0a000000#32) := by
    decide +kernel
  obtain ⟨⟨c, resp⟩, hres, hip⟩ := map_eq_some_iff.mp hjoin
  have hok := toOption_eq_some.mp hres
  have hm : start.cfg.memberByName "ann" = some (NetworkExample.client "a1", .client) := by decide +kernel
  have hvalid : start.cfg.check .byteText (fun _ _ => []) = .ok () := by decide +kernel
  refine ⟨c, resp, hok, hip, ?_⟩
  refine ((granted_usable_iff hvalid hok hm).mpr ⟨?_, ?_⟩).1 rfl _ hip
  · rintro _ ip ⟨-, hin⟩
    cases hin with
    | static configured => cases configured
    | kept _ own => cases own
    | reclaimed _ _ _ _ gone =>
      obtain ⟨_, ⟨r, hr, -⟩, -⟩ := gone
      cases hr.record
  · rintro ip ⟨-, hin⟩
    cases hin with
    | static configured => cases configured
    | kept _ own => cases own
    | reclaimed _ _ _ _ gone =>
      obtain ⟨_, ⟨r, hr, -⟩, -⟩ := gone
      cases hr.record

/-- Ann's address in the short range is the network address of the wider one; the edit is accepted,
and the next join of ann returns it. -/
theorem kept_network_address : ∃ ns,
    (networkSystem .byteText).run start [.perform (NetworkExample.join "ann" "a1" "k" 50), .perform widen] =
        some ns ∧
      ns.cfg.check .byteText (fun _ _ => []) = .ok () ∧
      ∃ m role c resp, ns.cfg.memberByName "ann" = some (m, role) ∧ m.preferredIp4 = none ∧
        (rejoin ns 100).2 = .ok (c, resp) ∧ resp.ip4 = some 0x0a000000#32 ∧
        ¬ ns.cfg.UsableV4 0x0a000000#32 := by
  have hrun : ((networkSystem .byteText).run start
        [.perform (NetworkExample.join "ann" "a1" "k" 50), .perform widen]).map (fun ns =>
          (ns.cfg.check .byteText (fun _ _ => []), ns.cfg.ipv4Cidr,
            (ns.cfg.memberByName "ann").map fun m => m.1.preferredIp4,
            (rejoin ns 100).2.toOption.map fun x => x.2.ip4)) =
      some (.ok (), some (0x0a000000#32, ⟨24, Nat.le_add_right 25 8⟩), some none, some (some 0x0a000000#32)) := by
    decide +kernel
  obtain ⟨ns, hns, hfacts⟩ := map_eq_some_iff.mp hrun
  simp only [Prod.mk.injEq, map_eq_some_iff] at hfacts
  obtain ⟨hcheck, hcidr, ⟨⟨m, role⟩, hm, hdynamic⟩, ⟨c, resp⟩, hjoin, hip⟩ := hfacts
  refine ⟨ns, hns, hcheck, m, role, c, resp, hm, hdynamic, toOption_eq_some.mp hjoin, hip,
    fun husable => husable.2 ?_⟩
  exact ⟨_, _, hcidr, by decide, .inl (by decide)⟩

end NetState

end Nqvpn
