import Nqvpn.Seal
import Nqvpn.Snapshot

/-!
# Inner packets and the peer table

What an endpoint reads off an inner packet (its addresses, and the flow that picks
its transport lane), and what it knows about its peers from the published
membership: who owns which prefix, which addresses are its own, and which key each
peer has. `checkIngress` is the filter every decrypted packet passes before it
reaches the device.
-/

namespace Nqvpn

abbrev Packet := List UInt8

namespace Packet

variable (packet : Packet)

def version : Option UInt8 := packet.head?.map fun (b : UInt8) => b >>> 4

def addr4 (i : Nat) : IpAddr :=
  .v4 (BitVec.ofNat 32 (BigEndian.ofBytes ((packet.drop i).take 4)))

def addr6 (i : Nat) : IpAddr :=
  .v6 (BitVec.ofNat 128 (BigEndian.ofBytes ((packet.drop i).take 16)))

def parseInnerAddrs : Option (IpAddr × IpAddr) :=
  match packet.version with
  | some 4 => if 20 ≤ packet.length then some (packet.addr4 12, packet.addr4 16) else none
  | some 6 => if 40 ≤ packet.length then some (packet.addr6 8, packet.addr6 24) else none
  | _ => none

/-! ### Flow identity -/

def fnvOffset : UInt64 := 0xcbf29ce484222325
def fnvPrime : UInt64 := 0x100000001b3

def mix (h : UInt64) (bytes : List UInt8) : UInt64 :=
  bytes.foldl (fun h b => (h ^^^ b.toUInt64) * fnvPrime) h

def flowParts : Option (UInt8 × List UInt8 × Option (List UInt8)) :=
  match packet.version with
  | some 4 =>
    if packet.length < 20 then none
    else
      let ihl := (packet.getD 0 0 &&& 0x0f).toNat * 4
      -- A later fragment has no transport header to read.
      let fragOffset := (packet.getD 6 0 &&& 0x1f).toNat * 256 + (packet.getD 7 0).toNat
      let l4 := if fragOffset = 0 ∧ ihl + 4 ≤ packet.length then some ((packet.drop ihl).take 4)
        else none
      some (packet.getD 9 0, (packet.drop 12).take 8, l4)
  | some 6 =>
    if packet.length < 40 then none
    else
      let l4 := if 44 ≤ packet.length then some ((packet.drop 40).take 4) else none
      some (packet.getD 6 0, (packet.drop 8).take 32, l4)
  | _ => none

def flowHash : Option UInt64 :=
  packet.flowParts.map fun (proto, addrs, l4) =>
    let h := mix (mix fnvOffset addrs) [proto]
    match l4 with
    | some ports =>
      if proto = 6 ∨ proto = 17 ∨ proto = 132 ∨ proto = 136 then mix h ports else h
    | none => h

def traceId : Nat :=
  match packet.flowHash with
  | some h => ((h >>> 32) ^^^ h).toUInt32.toNat
  | none => 0

def laneFor (lanes : UInt8) : UInt8 :=
  if lanes ≤ 1 then 0
  else
    match packet.flowHash with
    | some h => (((h >>> 32) ^^^ h) % lanes.toUInt64).toUInt8
    | none => 0

end Packet

/-! ### Prefix tables -/

abbrev LpmTable := List (IpNet × NodeId)

namespace LpmTable

variable (t : LpmTable)

def remove (net : IpNet) : LpmTable := t.filter (·.1 ≠ net.trunc)

def insert (net : IpNet) (node : NodeId) : LpmTable :=
  (net.trunc, node) :: t.remove net

/-- The owner of the longest prefix covering `ip`. -/
def lookup (ip : IpAddr) : Option NodeId :=
  let longer (best : Option (IpNet × NodeId)) (e : IpNet × NodeId) : Option (IpNet × NodeId) :=
    match best with
    | none => some e
    | some b => if b.1.prefixLen < e.1.prefixLen then some e else some b
  ((t.filter (·.1.containsAddr ip)).foldl longer none).map (·.2)

end LpmTable

def IpNet.containsNet : IpNet → IpNet → Bool
  | v4 a len, v4 b len' => len ≤ len' && mask a len == mask b len
  | v6 a len, v6 b len' => len ≤ len' && mask a len == mask b len
  | _, _ => false

def isExitMarker (net : IpNet) : Bool := net.prefixLen == 0

/-- Which published prefixes this node is willing to route. -/
structure RoutePolicy where
  allow : Option (List IpNet)
deriving DecidableEq, Repr

namespace RoutePolicy

def minPrefixV4 : Nat := 8
def minPrefixV6 : Nat := 16

def allowList (allow : List IpNet) : RoutePolicy := ⟨some (allow.map IpNet.trunc)⟩

def refusal (policy : RoutePolicy) (net : IpNet) : Option String :=
  if isExitMarker net then none
  else
    match policy.allow with
    | some allow =>
      if allow.any (·.containsNet net) then none
      else some "outside the configured [routes] allow list"
    | none =>
      let least := match net.addr with
        | .v4 _ => minPrefixV4
        | .v6 _ => minPrefixV6
      if net.prefixLen < least then
        some "wider than /8 (IPv4) or /16 (IPv6); list it in [routes] allow to accept it"
      else none

def permits (policy : RoutePolicy) (net : IpNet) : Bool := (policy.refusal net).isNone

end RoutePolicy

def decodePubkey (b64 : String → Option (List UInt8)) (text : String) : Option Key :=
  (b64 text).filter (·.length = 32)

inductive IngressVerdict
  | accept
  | drop (reason : String)
deriving DecidableEq, Repr

structure PeerTable where
  peers : Std.ExtTreeMap NodeId PeerInfo
  lpm : LpmTable
  /-- Our own host addresses: looped back, and accepted. -/
  mineHosts : List IpNet
  /-- Networks we front as a gateway: accepted, never looped back. -/
  mineNets : List IpNet
  myNodeId : NodeId
  policy : RoutePolicy

namespace PeerTable

def new (myNodeId : NodeId) : PeerTable :=
  { peers := ∅, lpm := [], mineHosts := [], mineNets := [], myNodeId, policy := ⟨none⟩ }
variable (t : PeerTable) (addr : IpAddr)

def setMine (hosts nets : List IpNet) : PeerTable :=
  { t with mineHosts := hosts, mineNets := nets }

def setPolicy (policy : RoutePolicy) : PeerTable := { t with policy }

def upsert (p : PeerInfo) : PeerTable :=
  let lpm :=
    if p.nodeId ≠ t.myNodeId then
      (p.prefixes.filter fun n => !isExitMarker n && t.policy.permits n).foldl
        (fun lpm net => lpm.insert net p.nodeId) t.lpm
    else t.lpm
  -- A peer's prefixes can shrink: drop what this node no longer claims.
  let stale := (lpm.filter fun e => e.2 = p.nodeId ∧ e.1 ∉ p.prefixes).map (·.1)
  { t with lpm := stale.foldl LpmTable.remove lpm, peers := t.peers.insert p.nodeId p }

def remove (t : PeerTable) (id : NodeId) : PeerTable :=
  if id ∈ t.peers then
    -- Only entries this node holds: a prefix may have been taken over since.
    let held := (t.lpm.filter (·.2 = id)).map (·.1)
    { t with peers := t.peers.erase id, lpm := held.foldl LpmTable.remove t.lpm }
  else t

def replaceAll (peers : List PeerInfo) : PeerTable :=
  peers.foldl upsert { t with peers := ∅, lpm := [] }

def ownerOf : Option NodeId := t.lpm.lookup addr

/-- Point a family's default at `node`: how a route-all client picks its exit. -/
def setDefaultExit (net : IpNet) (node : NodeId) : PeerTable :=
  if node ≠ t.myNodeId then { t with lpm := t.lpm.insert net node } else t

def isMineHost : Bool := t.mineHosts.any (·.containsAddr addr)

def owns : Bool :=
  t.isMineHost addr || t.mineNets.any (·.containsAddr addr)

def pubkeyOf (b64 : String → Option (List UInt8)) (t : PeerTable) (id : NodeId) : Option Key :=
  t.peers[id]?.bind fun p => decodePubkey b64 p.pubkey

/-- The filter after decryption: the inner source must belong to the node that
sealed the packet, the inner destination to us. -/
def checkIngress (srcId : NodeId) (packet : Packet) : IngressVerdict :=
  match packet.parseInnerAddrs with
  | none => .drop "malformed_inner"
  | some (src, dst) =>
    if t.ownerOf src ≠ some srcId then .drop "inner_src_not_owned"
    else if !t.owns dst then .drop "inner_dst_not_mine"
    else .accept

theorem checkIngress_eq_accept {t : PeerTable} {srcId : NodeId} {packet : Packet} :
    t.checkIngress srcId packet = .accept ↔ ∃ src dst, packet.parseInnerAddrs = some (src, dst) ∧
      t.ownerOf src = some srcId ∧ t.owns dst := by
  unfold checkIngress
  cases packet.parseInnerAddrs with
  | none => simp
  | some addrs =>
    obtain ⟨src, dst⟩ := addrs
    by_cases howner : t.ownerOf src = some srcId
    · cases hdst : t.owns dst with
      | false | true => simp [howner, hdst]
    · simp [howner]

/-! ### What a replaced table holds -/

end PeerTable

end Nqvpn
