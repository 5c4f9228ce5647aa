import Nqvpn.ConfigValidation
import Nqvpn.Leases

/-!
# Address allocation

One range per family. Configured addresses are hard reservations; every other
address follows its member until the range is exhausted, and then the one whose
client has been gone longest is taken back. Taking one back retires the
credentials of the member that held it.
-/

namespace Nqvpn

open Fallible

structure Granted where
  ip4 : Option (BitVec 32)
  ip6 : Option (BitVec 128)
deriving DecidableEq, Repr

namespace Ipam

/-- The first index from `start` on, wrapping around `n`, that is free; `step` have
been tried. -/
def scanFrom (n : Nat) (free : Nat → Bool) (start : Nat) : Nat → Nat → Option Nat
  | 0, _ => none
  | fuel + 1, step =>
    let idx := (start + step) % n
    if free idx then some idx else scanFrom n free start fuel (step + 1)

/-- Scan `n` addresses from the cursor: the address found, and the cursor after it. -/
def scanFromCursor {α : Type} (n : Nat) (at_ : Nat → α) (taken : α → Bool) (cursor : Nat) :
    Option (α × Nat) :=
  if n = 0 then none
  else (scanFrom n (fun i => !taken (at_ i)) (cursor % n) n 0).map fun i => (at_ i, (i + 1) % n)

/-- How many usable hosts a range has, and the first one: everything but network and
broadcast, except for the two shortest ranges. -/
def v4Hosts (net : BitVec 32) (len : Fin 33) : Nat × Nat :=
  let first := (IpNet.mask net len).toNat
  let last := (IpNet.last net len).toNat
  if 31 ≤ len.val then (last - first + 1, first) else (last - first - 1, first + 1)

section Reclaim

variable (cfg : NetworkConfig) (reg : Registry) (leases : Leases) (now : Nat)

/-- Who can lose an address: a client other than the joining member, offline, declared
attached by no relay, configured, and gone for longer than a join takes to connect. -/
def abandoned (member : String) (id : NodeId) (r : MemberRecord) : Bool :=
  decide (r.name ≠ member) && r.role == .client && !leases.isOnline id &&
    decide (id ∉ leases.attachments) && (cfg.memberByName r.name).isSome &&
    (leases.offlineSince[id]?.isSome ||
      satAdd (r.lastJoinUnix.getD r.createdUnix) cfg.settings.livenessWindowSecs ≤ now)

def goneSince (id : NodeId) (r : MemberRecord) : Nat :=
  leases.offlineSince[id]?.getD (min (r.lastJoinUnix.getD r.createdUnix * 1000) (2 ^ 64 - 1))

def reclaimable {α : Type} (member : String) (address : MemberRecord → Option α)
    (eligible : α → Bool) : Option (NodeId × α) :=
  let candidates := reg.members.toList.filterMap fun p =>
    if abandoned cfg leases now member p.1 p.2 then
      ((address p.2).filter eligible).map fun ip => (goneSince leases p.1 p.2, p.1, ip)
    else none
  let older (best : Option (Nat × NodeId × α)) (c : Nat × NodeId × α) : Option (Nat × NodeId × α) :=
    match best with
    | none => some c
    | some b => if toLex (c.1, c.2.1) < toLex (b.1, b.2.1) then some c else some b
  (candidates.foldl older none).map (·.2)

end Reclaim

variable {α : Type} [DecidableEq α] (env : CoordText) (cfg : NetworkConfig) (reg : Registry)

def retire (victim : NodeId) (drop : MemberRecord → MemberRecord) : Registry :=
  { reg with members := reg.members.modify victim fun r =>
      { drop r with loginGen := r.loginGen + 1 } }

def takenBy (member : String) (assigned : MemberRecord → Option α)
    (configured : MemberCfg → Option α) (ip : α) : Bool :=
  (reg.records.any fun r => decide (r.name ≠ member) && assigned r == some ip) ||
    cfg.members.any fun m => decide (m.1 ≠ member) && configured m.2.1 == some ip

def isHard (configured : MemberCfg → Option α) (ip : α) : Bool :=
  cfg.members.any fun m => configured m.2.1 == some ip

/-- IPv6 ranges are effectively unbounded; at most this many addresses are scanned. -/
def v6ScanCap : Nat := 100000

section Allocate

variable (cfg : NetworkConfig) (reg : Registry) (reclaim : Option Leases) (now : Nat)
  (member : String)

def allocV4 : Except ApiError (Option (BitVec 32) × Registry) := do
  let (net, len) ← orFail cfg.ipv4Cidr (.internal "validated networks always have an IPv4 CIDR")
  let (n, first) := v4Hosts net len
  let taken := takenBy cfg reg member (·.ip4) (·.preferredIp4)
  match scanFromCursor n (fun i => BitVec.ofNat 32 (first + i)) taken (reg.allocCursor["ipv4"]?.getD 0) with
  | some (ip, next) => return (some ip, { reg with allocCursor := reg.allocCursor.insert "ipv4" next })
  | none =>
    let eligible (ip : BitVec 32) : Bool :=
      !isHard cfg (·.preferredIp4) ip && (IpNet.v4 net len).containsAddr (.v4 ip)
    match reclaim.bind fun leases => reclaimable cfg reg leases now member (·.ip4) eligible with
    | some (victim, ip) => return (some ip, retire reg victim fun r => { r with ip4 := none })
    | none => .error (.addressSpaceExhausted "IPv4 range is exhausted")

def allocV6 : Option (BitVec 128) × Registry :=
  match cfg.ipv6Cidr with
  | none => (none, reg)
  | some (net, len) =>
    -- The network address is skipped.
    let first := (IpNet.mask net len).toNat + 1
    let last := (IpNet.last net len).toNat
    let taken := takenBy cfg reg member (·.ip6) (·.preferredIp6)
    let n := min (last + 1 - first) v6ScanCap
    match scanFromCursor n (fun i => BitVec.ofNat 128 (first + i)) taken (reg.allocCursor["ipv6"]?.getD 0) with
    | some (ip, next) => (some ip, { reg with allocCursor := reg.allocCursor.insert "ipv6" next })
    | none =>
      let eligible (ip : BitVec 128) : Bool :=
        !isHard cfg (·.preferredIp6) ip && (IpNet.v6 net len).containsAddr (.v6 ip)
      match reclaim.bind fun leases => reclaimable cfg reg leases now member (·.ip6) eligible with
      | some (victim, ip) => (some ip, retire reg victim fun r => { r with ip6 := none })
      | none => (none, reg)

end Allocate

def checkInNetwork (ip : IpAddr) : Except ApiError Unit := do
  ensure ((ip.isLoopback || ip.isUnspecified || ip.isMulticast || ip.isBroadcast) = false)
    (.badRequest s!"{env.renderIp ip} is not a usable address")
  ensure (cfg.inTunnel ip = true)
    (.badRequest s!"{env.renderIp ip} is outside this network's tunnel CIDRs")

def checkWanted (ip : IpAddr) (taken : Bool) :
    Except ApiError Unit := do
  checkInNetwork env cfg ip
  ensure (taken = false) (.addressInUse s!"{env.renderIp ip} is already assigned")

/-- Addresses for a joining member. With `reclaim` the leases say who is gone; without
it nothing is taken back. -/
def allocateInner (reclaim : Option Leases) (now : Nat) (member : String)
    (preferred4 : Option (BitVec 32)) (preferred6 : Option (BitVec 128)) :
    Except ApiError (Granted × Registry) := do
  let (m, _) ← orFail (cfg.memberByName member) (.notFound s!"member {member.quote} is not configured")
  let want4 := preferred4.or m.preferredIp4
  let want6 := preferred6.or m.preferredIp6
  -- Both choices are checked before anything is allocated.
  each want4.toList fun ip =>
    checkWanted env cfg (.v4 ip) (takenBy cfg reg member (·.ip4) (·.preferredIp4) ip)
  each want6.toList fun ip =>
    checkWanted env cfg (.v6 ip) (takenBy cfg reg member (·.ip6) (·.preferredIp6) ip)
  let current := reg.byName member
  let current4 := (current.bind (·.ip4)).filter fun ip => cfg.inTunnel (.v4 ip)
  let current6 := (current.bind (·.ip6)).filter fun ip => cfg.inTunnel (.v6 ip)
  let (ip4, reg) ← match want4.or current4 with
    | some ip => .ok (some ip, reg)
    | none => allocV4 cfg reg reclaim now member
  let (ip6, reg) := match want6.or current6 with
    | some ip => (some ip, reg)
    | none => allocV6 cfg reg reclaim now member
  return (⟨ip4, ip6⟩, reg)

def allocateForJoin (leases : Leases) (allowReclaim : Bool) (now : Nat) (member : String)
    (preferred4 : Option (BitVec 32)) (preferred6 : Option (BitVec 128)) : Except ApiError (Granted × Registry) :=
  allocateInner env cfg reg (if allowReclaim then some leases else none) now member preferred4
    preferred6

end Ipam

end Nqvpn
