import Mathlib.Data.List.MinMax
import Nqvpn.NetworkOps

/-!
# What a join decides

The plan of a join, taken apart: who the secret names, what the allocator grants and
takes back, and the record the join writes.
-/

namespace Nqvpn

open Fallible Std.ExtTreeMap Option

namespace Ipam

variable {n : Nat} {α : Type} {r : MemberRecord} {ip4 : Option (BitVec 32)} {ip : BitVec 128}

/-! ### The scan -/

theorem scanFrom_eq_find? {free : Nat → Bool} {start fuel step : Nat} :
    scanFrom n free start fuel step =
      ((List.range' step fuel).map fun k => (start + k) % n).find? free := by
  induction fuel generalizing step with
  | zero => rfl
  | succ fuel ih =>
    simp only [scanFrom, List.range'_succ, List.map_cons, List.find?_cons, ih]
    cases free ((start + step) % n) <;> rfl

variable {at_ : Nat → α} {taken : α → Bool} {cursor : Nat}

theorem exists_of_scanFromCursor {ip : α} {next : Nat}
    (h : scanFromCursor n at_ taken cursor = some (ip, next)) : (∃ i < n, at_ i = ip) ∧ taken ip = false := by
  unfold scanFromCursor at h
  split_ifs at h with hn
  obtain ⟨i, hi, heq⟩ := map_eq_some_iff.mp h
  cases heq
  rw [scanFrom_eq_find?] at hi
  obtain ⟨k, -, rfl⟩ := List.mem_map.mp (List.mem_of_find?_eq_some hi)
  exact ⟨⟨_, Nat.mod_lt _ (Nat.pos_of_ne_zero hn), rfl⟩, by simpa using List.find?_some hi⟩

theorem scanFromCursor_eq_none :
    scanFromCursor n at_ taken cursor = none ↔ ∀ i < n, taken (at_ i) := by
  unfold scanFromCursor
  split_ifs with hn
  · subst hn
    simp
  · rw [map_eq_none_iff, scanFrom_eq_find?, List.find?_eq_none]
    have hpos := Nat.pos_of_ne_zero hn
    have hstart : cursor % n < n := Nat.mod_lt _ hpos
    constructor
    · intro h i hi
      -- The step at which the scan comes by index `i`.
      have hidx : (cursor % n + (i + n - cursor % n) % n) % n = i := by
        rw [Nat.add_mod_mod, Nat.add_sub_cancel' (by omega), Nat.add_mod_right, Nat.mod_eq_of_lt hi]
      have hmem : (i + n - cursor % n) % n ∈ List.range' 0 n := by simp [Nat.mod_lt _ hpos]
      have hk := h _ (List.mem_map_of_mem hmem)
      rw [hidx] at hk
      simpa using hk
    · intro h x hx
      obtain ⟨k, -, rfl⟩ := List.mem_map.mp hx
      rw [h _ (Nat.mod_lt _ hpos)]
      exact Bool.false_ne_true

/-! ### Who loses an address -/

/-- One address family: where records and the configuration keep its addresses. -/
structure Family (α : Type) where
  assigned : MemberRecord → Option α
  configured : MemberCfg → Option α
  drop : MemberRecord → MemberRecord

def v4 : Family (BitVec 32) := ⟨(·.ip4), (·.preferredIp4), fun r => { r with ip4 := none }⟩
def v6 : Family (BitVec 128) := ⟨(·.ip6), (·.preferredIp6), fun r => { r with ip6 := none }⟩

/-- Who an address is reclaimed from. -/
structure Reclaims {α : Type} (cfg : NetworkConfig) (reg : Registry) (leases : Leases) (now : Nat)
    (member : String) (assigned : MemberRecord → Option α) (eligible : α → Bool) (victim : NodeId)
    (ip : α) (r : MemberRecord) : Prop where
  record : reg.members[victim]? = some r
  abandoned : abandoned cfg leases now member victim r = true
  assigned : assigned r = some ip
  eligible : eligible ip = true

section Reclaim

variable (f : Family α) (cfg : NetworkConfig) (reg : Registry) (leases : Leases) (now : Nat)
  (member : String) (eligible : α → Bool)

/-- The client `id`, gone since `since`, can lose `ip`. -/
def CanLose (id : NodeId) (since : Nat) (ip : α) : Prop :=
  ∃ r, Reclaims cfg reg leases now member f.assigned eligible id ip r ∧ goneSince leases id r = since

def candidates : List (Nat × NodeId × α) :=
  reg.members.toList.filterMap fun p =>
    if abandoned cfg leases now member p.1 p.2 then
      ((f.assigned p.2).filter eligible).map fun ip => (goneSince leases p.1 p.2, p.1, ip)
    else none

variable {f cfg reg leases now member eligible}

def departure (c : Nat × NodeId × α) : Nat ×ₗ NodeId := toLex (c.1, c.2.1)

theorem mem_candidates {c : Nat × NodeId × α} : c ∈ candidates f cfg reg leases now member eligible ↔
    CanLose f cfg reg leases now member eligible c.2.1 c.1 c.2.2 := by
  simp only [candidates, List.mem_filterMap, CanLose, Prod.exists]
  constructor
  · rintro ⟨id, r, hr, hc⟩
    split_ifs at hc with habandoned
    obtain ⟨ip, hip, rfl⟩ := map_eq_some_iff.mp hc
    obtain ⟨hassigned, heligible⟩ := filter_eq_some_iff.mp hip
    have hrecord := mem_toList_iff_getElem?_eq_some.mp hr
    exact ⟨r, ⟨hrecord, habandoned, hassigned, heligible⟩, rfl⟩
  · rintro ⟨r, hr, hsince⟩
    refine ⟨c.2.1, r, mem_toList_iff_getElem?_eq_some.mpr hr.record, ?_⟩
    rw [if_pos hr.abandoned, hr.assigned, filter_some, if_pos hr.eligible, map_some, hsince]

theorem reclaimable_eq_argmin : reclaimable cfg reg leases now member f.assigned eligible =
    ((candidates f cfg reg leases now member eligible).argmin departure).map (·.2) := by
  simp only [reclaimable, List.argmin, candidates]
  congr 2
  funext best c
  cases best <;> rfl

theorem reclaimable_eq_some {victim : NodeId} {ip : α}
    (h : reclaimable cfg reg leases now member f.assigned eligible = some (victim, ip)) :
    ∃ r, Reclaims cfg reg leases now member f.assigned eligible victim ip r := by
  rw [reclaimable_eq_argmin, map_eq_some_iff] at h
  obtain ⟨⟨since, _⟩, hc, rfl⟩ := h
  obtain ⟨r, hr, -⟩ := mem_candidates.mp (List.argmin_mem hc)
  exact ⟨r, hr⟩

end Reclaim

/-! ### The search -/

/-- No other member holds the address or has it configured. -/
structure Free {α : Type} (f : Family α) (cfg : NetworkConfig) (reg : Registry) (member : String)
    (ip : α) : Prop where
  unassigned : ∀ (id : NodeId) (r : MemberRecord), reg.members[id]? = some r → r.name ≠ member →
    f.assigned r ≠ some ip
  unreserved : ∀ m ∈ cfg.members, m.1 ≠ member → f.configured m.2.1 ≠ some ip

variable {reg : Registry}

theorem mem_records :
    r ∈ reg.records ↔ ∃ id : NodeId, reg.members[id]? = some r := by
  simp [Registry.records, mem_toList_iff_getElem?_eq_some]

/-- The addresses of a range that are scanned, and which ones belong to the range. -/
structure Pool (α : Type) where
  size : Nat
  host : Nat → α
  contains : α → Bool

def v4Pool (cfg : NetworkConfig) : Pool (BitVec 32) :=
  match cfg.ipv4Cidr with
  | none => ⟨0, fun _ => 0#32, fun _ => false⟩
  | some (net, len) =>
    ⟨(v4Hosts net len).1, fun i => BitVec.ofNat 32 ((v4Hosts net len).2 + i),
      fun ip => (IpNet.v4 net len).containsAddr (.v4 ip)⟩

def v6Pool (cfg : NetworkConfig) : Pool (BitVec 128) :=
  match cfg.ipv6Cidr with
  | none => ⟨0, fun _ => 0#128, fun _ => false⟩
  | some (net, len) =>
    let first := (IpNet.mask net len).toNat + 1
    ⟨min ((IpNet.last net len).toNat + 1 - first) v6ScanCap, fun i => BitVec.ofNat 128 (first + i),
      fun ip => (IpNet.v6 net len).containsAddr (.v6 ip)⟩

section Search

variable [DecidableEq α] (f : Family α) (pool : Pool α) (cfg : NetworkConfig) (reg : Registry)
  (reclaim : Option Leases) (now : Nat) (member family : String)

/-- An address for a member that has none: the next free host, or one that is taken back. -/
def search : Option (α × Registry) :=
  ((scanFromCursor pool.size pool.host (takenBy cfg reg member f.assigned f.configured)
      (reg.allocCursor[family]?.getD 0)).map fun found =>
        (found.1, { reg with allocCursor := reg.allocCursor.insert family found.2 })).or
    ((reclaim.bind fun leases => reclaimable cfg reg leases now member f.assigned
      (fun ip => !isHard cfg f.configured ip && pool.contains ip)).map fun lost =>
        (lost.2, retire reg lost.1 f.drop))

variable {f pool cfg reg reclaim now member family}

theorem takenBy_eq_false_iff {ip : α} :
    takenBy cfg reg member f.assigned f.configured ip = false ↔ Free f cfg reg member ip := by
  simp only [takenBy, Bool.or_eq_false_iff, List.any_eq_false, Bool.and_eq_true, decide_eq_true_eq,
    beq_iff_eq, not_and]
  constructor
  · exact fun h => ⟨fun id r hr hname => h.1 r (mem_records.mpr ⟨id, hr⟩) hname, h.2⟩
  · intro h
    refine ⟨fun r hr hname => ?_, h.unreserved⟩
    obtain ⟨id, hid⟩ := mem_records.mp hr
    exact h.unassigned id r hid hname

theorem search_cases {ip : α} {reg' : Registry}
    (h : search f pool cfg reg reclaim now member family = some (ip, reg')) :
    ((∃ i < pool.size, pool.host i = ip) ∧ Free f cfg reg member ip ∧
        ∃ cursor, reg' = { reg with allocCursor := cursor }) ∨
      ∃ leases victim r, reclaim = some leases ∧ reg' = retire reg victim f.drop ∧
        Reclaims cfg reg leases now member f.assigned
          (fun ip => !isHard cfg f.configured ip && pool.contains ip) victim ip r := by
  rcases or_eq_some_iff.mp h with hscan | ⟨-, hlost⟩
  · obtain ⟨found, hfound, heq⟩ := map_eq_some_iff.mp hscan
    cases heq
    obtain ⟨hhost, hfree⟩ := exists_of_scanFromCursor hfound
    exact .inl ⟨hhost, takenBy_eq_false_iff.mp hfree, _, rfl⟩
  · obtain ⟨lost, hfound, heq⟩ := map_eq_some_iff.mp hlost
    cases heq
    obtain ⟨leases, hleases, hreclaim⟩ := bind_eq_some_iff.mp hfound
    obtain ⟨r, hr⟩ := reclaimable_eq_some hreclaim
    exact .inr ⟨leases, lost.1, r, hleases, rfl, hr⟩

theorem search_of_empty (hsize : pool.size = 0) (hnone : ∀ ip, pool.contains ip = false) :
    search f pool cfg reg reclaim now member family = none := by
  refine eq_none_iff_forall_ne_some.mpr fun found hfound => ?_
  rcases search_cases hfound with ⟨⟨i, hi, -⟩, -⟩ | ⟨_, _, r, -, -, hr⟩
  · omega
  · simpa [hnone] using hr.eligible

end Search

/-- How a joining member comes by an address, and what becomes of the registry. -/
inductive Grant {α : Type} [DecidableEq α] (f : Family α) (cfg : NetworkConfig) (reg : Registry)
    (reclaim : Option Leases) (now : Nat) (member : String) : Option α → Registry → Prop
  | nothing : Grant f cfg reg reclaim now member none reg
  /-- The configured address, which nobody else has. -/
  | wanted {ip : α} (free : Free f cfg reg member ip) :
    Grant f cfg reg reclaim now member (some ip) reg
  /-- The address it has. -/
  | kept {ip : α} {id : NodeId} {r : MemberRecord} (record : reg.members[id]? = some r)
    (own : r.name = member) (assigned : f.assigned r = some ip) :
    Grant f cfg reg reclaim now member (some ip) reg
  | fresh {ip : α} (cursor : Std.ExtTreeMap String Nat)
    (free : Free f cfg reg member ip) :
    Grant f cfg reg reclaim now member (some ip) { reg with allocCursor := cursor }
  | reclaimed {leases : Leases} {victim : NodeId} {ip : α} {r : MemberRecord} {eligible : α → Bool}
    (allowed : reclaim = some leases)
    (from_ : Reclaims cfg reg leases now member f.assigned eligible victim ip r)
    (soft : isHard cfg f.configured ip = false) :
    Grant f cfg reg reclaim now member (some ip) (retire reg victim f.drop)

variable {cfg : NetworkConfig} {reg reg' : Registry} {reclaim : Option Leases} {now : Nat}
  {member family : String} {f : Family α}

variable (cfg reg reclaim now member) in
theorem allocV4_eq : ∃ e, allocV4 cfg reg reclaim now member =
    (search v4 (v4Pool cfg) cfg reg reclaim now member "ipv4").elim (.error e)
      fun found => .ok (some found.1, found.2) := by
  cases hcidr : cfg.ipv4Cidr with
  | none =>
    rw [search_of_empty (by simp [v4Pool, hcidr]) (by simp [v4Pool, hcidr]), allocV4, hcidr]
    exact ⟨_, rfl⟩
  | some range =>
    obtain ⟨net, len⟩ := range
    refine ⟨.addressSpaceExhausted "IPv4 range is exhausted", ?_⟩
    simp only [allocV4, search, v4Pool, v4, hcidr, orFail, Option.elim, bind, Except.bind]
    split
    · rename_i hscan
      rw [hscan]
      rfl
    · rename_i hscan
      rw [hscan]
      split <;> rename_i hlost <;> rw [hlost] <;> rfl

theorem allocV6_eq : allocV6 cfg reg reclaim now member =
    (search v6 (v6Pool cfg) cfg reg reclaim now member "ipv6").elim (none, reg)
      fun found => (some found.1, found.2) := by
  cases hcidr : cfg.ipv6Cidr with
  | none =>
    rw [search_of_empty (by simp [v6Pool, hcidr]) (by simp [v6Pool, hcidr]), allocV6, hcidr]
    rfl
  | some range =>
    obtain ⟨net, len⟩ := range
    simp only [allocV6, search, v6Pool, v6, hcidr]
    split
    · rename_i hscan
      rw [hscan]
      rfl
    · rename_i hscan
      rw [hscan]
      split <;> rename_i hlost <;> rw [hlost] <;> rfl

theorem Grant.members [DecidableEq α] {ip : Option α}
    (h : Grant f cfg reg reclaim now member ip reg') (id : NodeId) :
    reg'.members[id]? = reg.members[id]? ∨
      ∃ leases eligible ip' r, reclaim = some leases ∧ ip = some ip' ∧
        Reclaims cfg reg leases now member f.assigned eligible id ip' r ∧
        isHard cfg f.configured ip' = false ∧
        reg'.members[id]? = some { f.drop r with loginGen := r.loginGen + 1 } := by
  cases h with
  | nothing | wanted | kept | fresh => exact .inl rfl
  | @reclaimed leases victim ip' r eligible allowed from_ soft =>
    by_cases hid : victim = id
    · subst hid
      refine .inr ⟨leases, eligible, ip', r, allowed, rfl, from_, soft, ?_⟩
      simp [retire, from_.record]
    · left
      simp [retire, getElem?_modify, hid]

theorem Grant.frame [DecidableEq α] {ip : Option α}
    (h : Grant f cfg reg reclaim now member ip reg') :
    reg'.networkUuid = reg.networkUuid ∧ reg'.nextNodeId = reg.nextNodeId ∧
      reg'.genHwm = reg.genHwm ∧ reg'.members.size = reg.members.size := by
  cases h with
  | nothing | wanted | kept | fresh => exact ⟨rfl, rfl, rfl, rfl⟩
  | reclaimed => exact ⟨rfl, rfl, rfl, size_modify⟩

theorem Free.of_v4 (hgrant : Grant v4 cfg reg reclaim now member ip4 reg') (h : Free v6 cfg reg member ip) :
    Free v6 cfg reg' member ip := by
  refine ⟨fun id r' hr' hname => ?_, h.unreserved⟩
  rcases hgrant.members id with hsame | ⟨_, _, _, r, -, -, hr, -, hlost⟩
  · exact h.unassigned id r' (hsame ▸ hr') hname
  · rw [hlost] at hr'
    cases hr'
    exact h.unassigned id r hr.record hname

theorem kept_of_v4 {id : NodeId} (hgrant : Grant v4 cfg reg reclaim now member ip4 reg')
    (hr : reg.members[id]? = some r) (hname : r.name = member) (hip : r.ip6 = some ip) :
    Grant v6 cfg reg' reclaim now member (some ip) reg' := by
  rcases hgrant.members id with hsame | ⟨_, _, _, r', -, -, hr', -, -⟩
  · exact .kept (hsame.trans hr) hname hip
  · cases hr.symm.trans hr'.record
    have hother := hr'.abandoned
    simp [abandoned, hname] at hother

/-- What a member is given: what it has a right to, or else what a search finds. -/
inductive Picks [DecidableEq α] (f : Family α) (pool : Pool α) (cfg : NetworkConfig) (reg : Registry)
    (reclaim : Option Leases) (now : Nat) (member family : String) (past : Option α) :
    Option α → Registry → Prop
  | past {ip : α} (h : past = some ip) : Picks f pool cfg reg reclaim now member family past (some ip) reg
  | found {ip : α} {reg' : Registry} (h : past = none)
    (search : search f pool cfg reg reclaim now member family = some (ip, reg')) :
    Picks f pool cfg reg reclaim now member family past (some ip) reg'
  | nothing (h : past = none) (search : search f pool cfg reg reclaim now member family = none) :
    Picks f pool cfg reg reclaim now member family past none reg

theorem Picks.grant [DecidableEq α] {pool : Pool α} {past ip : Option α}
    (h : Picks f pool cfg reg reclaim now member family past ip reg')
    (hpast : ∀ ip, past = some ip → Grant f cfg reg reclaim now member (some ip) reg) :
    Grant f cfg reg reclaim now member ip reg' := by
  cases h with
  | past h => exact hpast _ h
  | nothing => exact .nothing
  | found _ hsearch =>
    rcases search_cases hsearch with ⟨-, hfree, cursor, rfl⟩ | ⟨leases, victim, r, hleases, rfl, hr⟩
    · exact .fresh cursor hfree
    · exact .reclaimed hleases hr ((Bool.not_eq_true' _).mp (Bool.and_eq_true_iff.mp hr.eligible).1)

theorem allocV4_picks {past ip : Option (BitVec 32)} (hpast : past = none)
    (h : allocV4 cfg reg reclaim now member = .ok (ip, reg')) :
    Picks v4 (v4Pool cfg) cfg reg reclaim now member "ipv4" past ip reg' := by
  obtain ⟨e, heq⟩ := allocV4_eq cfg reg reclaim now member
  rw [heq] at h
  cases hsearch : search v4 (v4Pool cfg) cfg reg reclaim now member "ipv4" with
  | none =>
    rw [hsearch] at h
    cases h
  | some found =>
    rw [hsearch] at h
    cases h
    exact .found hpast hsearch

theorem allocV4_grant {ip : Option (BitVec 32)} (h : allocV4 cfg reg reclaim now member = .ok (ip, reg')) :
    Grant v4 cfg reg reclaim now member ip reg' :=
  (allocV4_picks rfl h).grant nofun

theorem allocV6_picks {past : Option (BitVec 128)} (hpast : past = none) :
    Picks v6 (v6Pool cfg) cfg reg reclaim now member "ipv6" past (allocV6 cfg reg reclaim now member).1
      (allocV6 cfg reg reclaim now member).2 := by
  rw [allocV6_eq]
  cases hsearch : search v6 (v6Pool cfg) cfg reg reclaim now member "ipv6" with
  | none => exact .nothing hpast hsearch
  | some found => exact .found hpast hsearch

theorem past_cases {static : Option α} {inTunnel : α → Bool} {ip : α}
    (h : static.or (((reg.byName member).bind f.assigned).filter inTunnel) = some ip) :
    static = some ip ∨ ∃ (id : NodeId) (r : MemberRecord), reg.members[id]? = some r ∧ r.name = member ∧
      f.assigned r = some ip ∧ inTunnel ip := by
  rcases or_eq_some_iff.mp h with hstatic | ⟨-, hcurrent⟩
  · exact .inl hstatic
  · obtain ⟨hcurrent, hinside⟩ := filter_eq_some_iff.mp hcurrent
    obtain ⟨r, hr, hassigned⟩ := bind_eq_some_iff.mp hcurrent
    obtain ⟨id, hid⟩ := mem_records.mp (List.mem_of_find?_eq_some hr)
    exact .inr ⟨id, r, hid, by simpa using List.find?_some hr, hassigned, hinside⟩

section Allocated

variable (env : CoordText) (cfg reg reclaim now member) in
/-- What `allocate_inner` decides: the configured addresses are in the tunnel space and free, and the
second family works on what the first has left. -/
structure Allocated (preferred4 : Option (BitVec 32)) (preferred6 : Option (BitVec 128))
    (granted : Granted) (m : MemberCfg) (reg₁ reg' : Registry) : Prop where
  want4 : ∀ ip, preferred4.or m.preferredIp4 = some ip →
    cfg.inTunnel (.v4 ip) = true ∧ Free v4 cfg reg member ip
  want6 : ∀ ip, preferred6.or m.preferredIp6 = some ip →
    cfg.inTunnel (.v6 ip) = true ∧ Free v6 cfg reg member ip
  pick4 : Picks v4 (v4Pool cfg) cfg reg reclaim now member "ipv4" ((preferred4.or m.preferredIp4).or
    (((reg.byName member).bind v4.assigned).filter fun ip => cfg.inTunnel (.v4 ip))) granted.ip4 reg₁
  pick6 : Picks v6 (v6Pool cfg) cfg reg₁ reclaim now member "ipv6" ((preferred6.or m.preferredIp6).or
    (((reg.byName member).bind v6.assigned).filter fun ip => cfg.inTunnel (.v6 ip))) granted.ip6 reg'

variable {env : CoordText} {preferred4 : Option (BitVec 32)} {preferred6 : Option (BitVec 128)}
  {granted : Granted}

theorem allocateInner_eq_ok
    (h : allocateInner env cfg reg reclaim now member preferred4 preferred6 = .ok (granted, reg')) :
    ∃ m role reg₁, cfg.memberByName member = some (m, role) ∧
      Allocated cfg reg reclaim now member preferred4 preferred6 granted m reg₁ reg' := by
  simp only [allocateInner, bind_eq_ok, orFail_eq_ok, each_eq_ok, checkWanted, checkInNetwork,
    ensure_eq_ok, mem_toList] at h
  obtain ⟨⟨m, role⟩, hm, -, hwant4, -, hwant6, h⟩ := h
  have hchecked4 (ip : BitVec 32) (hip : preferred4.or m.preferredIp4 = some ip) :
      cfg.inTunnel (.v4 ip) ∧ Free v4 cfg reg member ip := by
    obtain ⟨_, ⟨_, -, htunnel⟩, hfree⟩ := hwant4 ip hip
    exact ⟨htunnel, takenBy_eq_false_iff.mp hfree⟩
  have hchecked6 (ip : BitVec 128) (hip : preferred6.or m.preferredIp6 = some ip) :
      cfg.inTunnel (.v6 ip) ∧ Free v6 cfg reg member ip := by
    obtain ⟨_, ⟨_, -, htunnel⟩, hfree⟩ := hwant6 ip hip
    exact ⟨htunnel, takenBy_eq_false_iff.mp hfree⟩
  split at h
  · rename_i ip hpast
    obtain ⟨_, hx, h⟩ := bind_eq_ok.mp h
    cases hx
    cases h
    refine ⟨m, role, reg, hm, hchecked4, hchecked6, .past hpast, ?_⟩
    split
    · exact .past ‹_›
    · exact allocV6_picks ‹_›
  · rename_i hpast
    obtain ⟨⟨ip4, reg₁⟩, halloc, h⟩ := bind_eq_ok.mp h
    cases h
    refine ⟨m, role, reg₁, hm, hchecked4, hchecked6, allocV4_picks hpast halloc, ?_⟩
    split
    · exact .past ‹_›
    · exact allocV6_picks ‹_›

theorem Allocated.grants {m : MemberCfg} {reg₁ : Registry}
    (h : Allocated cfg reg reclaim now member preferred4 preferred6 granted m reg₁ reg') :
    Grant v4 cfg reg reclaim now member granted.ip4 reg₁ ∧
      Grant v6 cfg reg₁ reclaim now member granted.ip6 reg' := by
  have h4 : Grant v4 cfg reg reclaim now member granted.ip4 reg₁ := by
    refine h.pick4.grant fun ip hip => ?_
    rcases past_cases hip with hstatic | ⟨id, r, hr, hname, hassigned, -⟩
    · exact .wanted (h.want4 ip hstatic).2
    · exact .kept hr hname hassigned
  refine ⟨h4, h.pick6.grant fun ip hip => ?_⟩
  rcases past_cases hip with hstatic | ⟨id, r, hr, hname, hassigned, -⟩
  · exact .wanted ((h.want6 ip hstatic).2.of_v4 h4)
  · exact kept_of_v4 h4 hr hname hassigned

end Allocated

end Ipam

/-! ### The plan -/

namespace NetState

def Allots (env : CoordText) (ns : NetState) (name : String) (m : MemberCfg) (t : Clock)
    (granted : Granted) (reg : Registry) : Prop :=
  if m.wantVpnIp.getD true then
    Ipam.allocateForJoin env ns.cfg ns.registry ns.leases (!ns.inGrace t.now) t.reclaimNow name
      m.preferredIp4 m.preferredIp6 = .ok (granted, reg)
  else granted = ⟨none, none⟩ ∧ reg = ns.registry

/-- What a plan says. -/
structure Plans (env : CoordText) (ns : NetState) (name presented : String) (req : JoinRequest)
    (peerIp : String) (t : Clock) (plan : JoinPlan) (granted : Granted) (reg : Registry)
    (relayAddr : Option String) : Prop where
  notDeleted : ns.deleted = false
  authentic : ns.authenticate name presented = some (plan.member, plan.role)
  enabled : (ns.registry.byName name).any (·.disabled) = false
  allots : ns.Allots env name plan.member t granted reg
  replaced : plan.replaced = isReplacement (ns.registry.byName name) req
  written : (plan.registry, plan.record) = reg.memberByNameMut name plan.role t.now
    (joinedRecord req peerIp plan.replaced granted
      (renewRoutes (((ns.registry.byName name).map (·.routes)).getD [])
        (declaredRoutes plan.member plan.role) t.now) relayAddr t.now)
variable {env : CoordText} {ns : NetState} {name peerIp presented : String} {req : JoinRequest} {t : Clock}

theorem joinPlan_eq_ok {plan : JoinPlan} (h : ns.joinPlan env name presented req peerIp t = .ok plan) :
    ∃ granted reg relayAddr, ns.Plans env name presented req peerIp t plan granted reg relayAddr := by
  simp only [joinPlan, bind_eq_ok, orFail_eq_ok, ensure_eq_ok] at h
  obtain ⟨-, hdeleted, ⟨member, role⟩, hauth, relayAddr, -, -, henabled, h⟩ := h
  split at h
  · rename_i hwant
    obtain ⟨⟨granted, reg⟩, halloc, h⟩ := bind_eq_ok.mp h
    cases h
    exact ⟨granted, reg, relayAddr, hdeleted, hauth, henabled, by rw [Allots, if_pos hwant]; exact halloc,
      rfl, rfl⟩
  · rename_i hwant
    obtain ⟨⟨granted, reg⟩, hnone, h⟩ := bind_eq_ok.mp h
    cases hnone
    cases h
    exact ⟨⟨none, none⟩, ns.registry, relayAddr, hdeleted, hauth, henabled,
      by rw [Allots, if_neg hwant]; exact ⟨rfl, rfl⟩, rfl, rfl⟩

theorem Allots.grants {m : MemberCfg} {granted : Granted} {reg : Registry}
    (h : ns.Allots env name m t granted reg) :
    ∃ reclaim reg₁, (∀ leases, reclaim = some leases → leases = ns.leases) ∧
      Ipam.Grant Ipam.v4 ns.cfg ns.registry reclaim t.reclaimNow name granted.ip4 reg₁ ∧
      Ipam.Grant Ipam.v6 ns.cfg reg₁ reclaim t.reclaimNow name granted.ip6 reg := by
  unfold Allots at h
  split_ifs at h
  · obtain ⟨_, _, reg₁, -, h⟩ := Ipam.allocateInner_eq_ok h
    refine ⟨_, reg₁, fun leases hl => ?_, h.grants⟩
    split_ifs at hl
    exact (some.inj hl).symm
  · obtain ⟨rfl, rfl⟩ := h
    exact ⟨none, ns.registry, fun _ hl => (nomatch hl), .nothing, .nothing⟩

/-- A join that succeeds has stored the registry it planned, closed the session it makes
stale, and published. -/
theorem join_eq_ok {signing : Signing} {db : DbOutcome} {c : Claims} {resp : JoinResponse}
    (h : (ns.join env name presented req peerIp signing t db).2 = .ok (c, resp)) :
    ∃ plan, ns.joinPlan env name presented req peerIp t = .ok plan ∧
      (ns.join env name presented req peerIp signing t db).1 =
        ((ns.withRows ⟨ns.cfg, plan.registry, ns.stored.config, some plan.registry⟩).closeStale plan name
          peerIp).publish env.net env.encode signing.keys t.now t.nowMs db.mark ∧
      c = joinClaims env (ns.join env name presented req peerIp signing t db).1 plan name req t.now := by
  unfold join at h ⊢
  cases hplan : ns.joinPlan env name presented req peerIp t with
  | error err =>
    rw [hplan] at h
    cases h
  | ok plan =>
    rw [hplan] at h
    refine ⟨plan, rfl, ?_⟩
    cases hdb : db.registry with
    | false =>
      simp only [commit_eq, hdb] at h
      have hfail : ({ ns.rows with snd := plan.registry }.commit false db.reload).2 = false := by
        obtain ⟨fst, snd, storedFst, storedSnd⟩ := ns.rows
        cases db.reload <;> cases storedSnd <;> rfl
      simp only [hfail, Bool.false_eq_true, if_false] at h
      cases h
    | true =>
      simp only [commit_eq, hdb] at h ⊢
      cases h
      exact ⟨rfl, rfl⟩

end NetState

end Nqvpn
