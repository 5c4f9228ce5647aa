import Nqvpn.Fallible
import Nqvpn.Registry

/-!
# What a configuration must satisfy

`validateNetworkWith` is the one rule set every change of a network passes before it
is committed: settings within their bounds, one address space, names in one role,
static addresses inside the tunnel space and claimed once, routed LANs that
overlap nothing. It also brings the configuration into canonical form, so what is
stored has no host bits in a prefix. `validateAssignments` checks a configuration
against the addresses the registry has already handed out.
-/

namespace Nqvpn

open Fallible

/-! ### Errors -/

inductive ErrorCode
  | badCredentials
  | clientDisabled
  | addressInUse
  | addressSpaceExhausted
  | badRequest
  | rateLimited
  | relayUnreachable
  | notFound
  | internal
deriving DecidableEq, Repr

structure ApiError where
  status : Nat
  code : ErrorCode
  message : String
deriving DecidableEq, Repr

namespace ApiError

def badCredentials : ApiError := ⟨401, .badCredentials, "unknown node id or wrong secret"⟩
def clientDisabled : ApiError := ⟨403, .clientDisabled, "member is administratively disabled"⟩
def addressInUse (msg : String) : ApiError := ⟨409, .addressInUse, msg⟩
def addressSpaceExhausted (msg : String) : ApiError := ⟨409, .addressSpaceExhausted, msg⟩
def badRequest (msg : String) : ApiError := ⟨400, .badRequest, msg⟩
def rateLimited : ApiError := ⟨429, .rateLimited, "slow down"⟩
def relayUnreachable (addr : String) : ApiError :=
  ⟨409, .relayUnreachable, s!"nothing answered at the advertised relay_addr {addr}"⟩
def notFound (msg : String) : ApiError := ⟨404, .notFound, msg⟩
def internal (msg : String) : ApiError := ⟨500, .internal, msg⟩

end ApiError

/-! ### Text -/

/-- How the coordinator reads and writes prefixes, addresses, keys and views. -/
structure CoordText where
  net : IpNetText
  renderIp : IpAddr → String
  parseIp : String → Option IpAddr
  base64 : String → Option (List UInt8)
  encode : Snapshot → List UInt8

/-- A form to evaluate the model with: addresses as their numbers, every text a key. -/
def CoordText.byteText : CoordText where
  net := IpNetText.byteText
  renderIp
    | .v4 a => s!"{a.toNat}"
    | .v6 a => s!"{a.toNat}"
  parseIp _ := none
  base64 _ := some (List.replicate 32 0)
  encode _ := []

abbrev Resolver := String → Nat → List IpAddr

/-- The characters `str::trim` removes. -/
def isWhiteSpace (c : Char) : Bool :=
  let n := c.toNat
  (9 ≤ n && n ≤ 13) || n == 0x20 || n == 0x85 || n == 0xa0 || n == 0x1680 ||
    (0x2000 ≤ n && n ≤ 0x200a) || n == 0x2028 || n == 0x2029 || n == 0x202f || n == 0x205f ||
    n == 0x3000

def trimText (s : String) : String :=
  String.ofList (((s.toList.dropWhile isWhiteSpace).reverse.dropWhile isWhiteSpace).reverse)

def isAsciiAlphanumeric (c : Char) : Bool :=
  ('a' ≤ c && c ≤ 'z') || ('A' ≤ c && c ≤ 'Z') || ('0' ≤ c && c ≤ '9')

def maxSecretLen : Nat := 64

def plausibleSecret (s : String) : Bool :=
  !s.isEmpty && s.utf8ByteSize ≤ maxSecretLen &&
    s.toList.all fun c => isAsciiAlphanumeric c || c == '-' || c == '_'

def validName (name : String) : Except ApiError Unit :=
  ensure ((!name.isEmpty && name.utf8ByteSize ≤ 64 &&
      name.toList.all fun c => isAsciiAlphanumeric c || c == '-' || c == '_' || c == '.') = true)
    (.badRequest s!"{name.quote}: names are 1-64 characters of [A-Za-z0-9._-]")

/-- `str::parse::<u16>`: digits, with an optional plus. -/
def parsePort (s : List Char) : Option Nat :=
  let digits := match s with
    | '+' :: rest => rest
    | _ => s
  if digits ≠ [] ∧ digits.all (fun c => '0' ≤ c && c ≤ '9') = true then
    (some (digits.foldl (fun n c => 10 * n + (c.toNat - 48)) 0)).filter (· ≤ 65535)
  else none

/-- The text after `auto:`, if it starts that way. -/
def autoPort (addr : String) : Option (List Char) :=
  match addr.toList with
  | 'a' :: 'u' :: 't' :: 'o' :: ':' :: port => some port
  | _ => none

def hostPort (addr : String) : Option (List Char × List Char) :=
  let back := addr.toList.reverse
  if ':' ∈ back then
    some ((back.dropWhile (· ≠ ':')).tail.reverse, (back.takeWhile (· ≠ ':')).reverse)
  else none

def bareHost (host : List Char) : String :=
  String.ofList (((host.dropWhile (· = '[')).reverse.dropWhile (· = ']')).reverse)

/-! ### Addresses -/

namespace IpAddr

def toCanonical : IpAddr → IpAddr
  | v4 a => v4 a
  | v6 a => if a >>> 32 = 0xffff#128 then v4 (a.setWidth 32) else v6 a

def isLoopback : IpAddr → Bool
  | v4 a => a >>> 24 == 127#32
  | v6 a => a == 1#128

def isUnspecified : IpAddr → Bool
  | v4 a => a == 0#32
  | v6 a => a == 0#128

def isMulticast : IpAddr → Bool
  | v4 a => a >>> 28 == 0xe#32
  | v6 a => a >>> 120 == 0xff#128

def isLinkLocal : IpAddr → Bool
  | v4 a => a >>> 16 == 0xa9fe#32
  | v6 a => (a >>> 112) &&& 0xffc0#128 == 0xfe80#128

def isBroadcast : IpAddr → Bool
  | v4 a => a == 0xffffffff#32
  | v6 _ => false

def unroutable (ip : IpAddr) : Bool :=
  ip.isLoopback || ip.isUnspecified || ip.isMulticast || ip.isLinkLocal || ip.isBroadcast ||
    match ip with
    | v4 a => a >>> 24 == 0#32
    | v6 _ => false

end IpAddr

namespace IpNet

def last {w : Nat} (a : BitVec w) (len : Nat) : BitVec w :=
  mask a len ||| ~~~ (mask (BitVec.allOnes w) len)

def overlaps (a b : IpNet) : Bool := a.containsAddr b.trunc.addr || b.containsAddr a.trunc.addr

end IpNet

def MemberCfg.addresses (m : MemberCfg) : List IpAddr :=
  (m.preferredIp4.map IpAddr.v4).toList ++ (m.preferredIp6.map IpAddr.v6).toList

def MemberRecord.addresses (r : MemberRecord) : List IpAddr :=
  (r.ip4.map IpAddr.v4).toList ++ (r.ip6.map IpAddr.v6).toList

namespace NetworkConfig

variable (cfg : NetworkConfig)

def ipv4Cidr : Option (BitVec 32 × Fin 33) :=
  cfg.cidrs.findSome? fun
    | .v4 a len => some (a, len)
    | .v6 _ _ => none

def ipv6Cidr : Option (BitVec 128 × Fin 129) :=
  cfg.cidrs.findSome? fun
    | .v4 _ _ => none
    | .v6 a len => some (a, len)

def inTunnel (ip : IpAddr) : Bool := cfg.cidrs.any (·.containsAddr ip)

end NetworkConfig

/-! ### Relay addresses -/

section Checks

variable (env : CoordText) (resolve : Resolver)
variable (cfg : NetworkConfig) (name : String)

def checkRelayIp (addr : String) (ip : IpAddr) (cfg : NetworkConfig) : Except String Unit :=
  let ip := ip.toCanonical
  if cfg.settings.allowLoopbackRelays && ip.isLoopback then .ok ()
  else do
    ensure (ip.unroutable = false)
      s!"relay {name}: relay_addr {addr.quote} resolves to an unroutable address {env.renderIp ip}"
    ensure (cfg.inTunnel ip = false)
      s!"relay {name}: relay_addr {addr.quote} ({env.renderIp ip}) lies inside tunnel space"
    ensure (cfg.members.any (fun m => m.2.1.localCidrs.any (·.containsAddr ip)) = false)
      s!"relay {name}: relay_addr {addr.quote} ({env.renderIp ip}) lies inside a routed LAN prefix"

/-- A configured relay address: `auto:` and a port, or a host and a port. Names are
resolved too, so that one pointing into the tunnel space is caught here. -/
def validateRelayAddr (addr : String) (cfg : NetworkConfig) : Except String Unit :=
  match autoPort addr with
  | some port =>
    ensure ((parsePort port).isSome = true)
      s!"relay {name}: relay_addr {addr.quote} must be auto:<port>"
  | none => do
    let parts ← orFail (hostPort addr) s!"relay {name}: relay_addr {addr.quote} must be host:port"
    let port ← orFail (parsePort parts.2) s!"relay {name}: bad port in relay_addr {addr.quote}"
    let host := bareHost parts.1
    let ips := match env.parseIp host with
      | some ip => [ip]
      | none => resolve host port
    each ips fun ip => checkRelayIp env name addr ip cfg

/-! ### Members -/

/-- A routed LAN overlaps neither the tunnel space nor, except as the same prefix,
what another member routes; and it contains no one's static address. -/
def checkLocalCidr (c : IpNet) : Except String Unit := do
  each cfg.cidrs fun t => ensure (c.overlaps t = false)
    s!"relay {name}: local cidr {env.net.render c} overlaps tunnel space {env.net.render t}"
  each (cfg.members.filter (·.1 ≠ name)) fun other => do
    each other.2.1.localCidrs fun oc => ensure (¬ (c.overlaps oc = true ∧ c.trunc ≠ oc.trunc))
      (s!"relay {name}: local cidr {env.net.render c} partially overlaps {env.net.render oc} " ++
        s!"routed by {other.1}")
    each other.2.1.addresses fun ip => ensure (c.containsAddr ip = false)
      s!"relay {name}: local cidr {env.net.render c} contains {other.1}'s address {env.renderIp ip}"

def checkSecret (m : MemberCfg) : Except String Unit :=
  match m.secret with
  | none => .ok ()
  | some s => do
    ensure ((trimText s).isEmpty = false) s!"member {name}: secret must not be empty"
    ensure (plausibleSecret (trimText s) = true)
      (s!"member {name}: a secret is 1-{maxSecretLen} characters of [A-Za-z0-9_-] " ++
        "(rotate to generate one)")

def checkRoleFields (m : MemberCfg) :
    Role → Except String Unit
  | .client =>
    ensure (m.relayAddr = none ∧ m.localCidrs = [] ∧ m.maxSessionMbps = none ∧
        m.internetGateway ≠ some true)
      (s!"client {name}: relay_addr/local_cidrs/max_session_mbps/internet_gateway " ++
        "are relay-only fields")
  | .relay => do
    ensure (m.preferredRelay = none) s!"relay {name}: preferred_relay is a client-only field"
    each (m.localCidrs.find? (·.isDefault)).toList fun c => .error
      (s!"relay {name}: {env.net.render c} is a default route, not a LAN — set " ++
        "internet_gateway = true to make this relay an internet exit instead")
    let addr ← orFail m.relayAddr s!"relay {name}: relay_addr is required"
    validateRelayAddr env resolve name addr cfg
    each m.localCidrs (checkLocalCidr env cfg name)

abbrev ClaimedAddrs := List (IpAddr × String)

def checkAddress (field name : String) (ip : IpAddr) (claimed : ClaimedAddrs) :
    Except String ClaimedAddrs := do
  ensure (ip.unroutable = false)
    s!"member {name}: {field} {env.renderIp ip} is not a usable address"
  ensure (cfg.inTunnel ip = true)
    s!"member {name}: {field} {env.renderIp ip} is outside this network's tunnel CIDRs"
  checkNotEdge ip
  each (claimed.find? (·.1 = ip)).toList fun prev => .error
    s!"{field} {env.renderIp ip} claimed by both {prev.2} and {name}"
  return (ip, name) :: claimed
where
  /-- The network and broadcast addresses of the IPv4 range are not host addresses. -/
  checkNotEdge : IpAddr → Except String Unit
    | .v6 _ => .ok ()
    | .v4 a =>
      match cfg.ipv4Cidr with
      | none => .ok ()
      | some (net, len) =>
        ensure (¬ (len.val < 31 ∧ (a = IpNet.mask net len ∨ a = IpNet.last net len)))
          (s!"member {name}: {field} {env.renderIp ip} is the network or broadcast address of " ++
            env.net.render (.v4 net len))

def checkMember (claimed : ClaimedAddrs) (member : String × MemberCfg × Role) :
    Except String ClaimedAddrs := do
  let (name, m, role) := member
  checkSecret name m
  checkRoleFields env resolve cfg name m role
  each m.preferredRelay.toList fun p => ensure (p ∈ cfg.relays)
    s!"member {name}: preferred relay {p.quote} is not a relay of this network"
  let claimed ← match m.preferredIp4 with
    | some ip => checkAddress env cfg "preferred_ip4" name (.v4 ip) claimed
    | none => .ok claimed
  match m.preferredIp6 with
  | some ip => checkAddress env cfg "preferred_ip6" name (.v6 ip) claimed
  | none => .ok claimed

/-! ### Networks -/

def maxLanes : Nat := 32
def maxCredentialTtlMins : Nat := 7 * 24 * 60

def checkSettings (id : String) (s : SettingsCfg) : Except String Unit := do
  ensure (s.relayReachability ∈ ["off", "warn", "deny"])
    (s!"network {id}: relay_reachability must be \"off\", \"warn\", or \"deny\" " ++
      s!"(got {s.relayReachability.quote})")
  ensure (s.transport ∈ ["datagram", "stream"])
    s!"network {id}: transport must be \"datagram\" or \"stream\""
  ensure (s.lanes ≠ 0 ∧ s.lanes ≤ maxLanes)
    s!"network {id}: lanes must be between 1 and {maxLanes} (got {s.lanes})"
  ensure (s.credentialTtlMins ≠ 0 ∧ s.heartbeatSecs ≠ 0 ∧ s.offlineAfter ≠ 0)
    s!"network {id}: credential_ttl_mins, heartbeat_secs and offline_after must be > 0"
  ensure (s.credentialTtlMins ≤ maxCredentialTtlMins)
    (s!"network {id}: credential_ttl_mins {s.credentialTtlMins} is outside " ++
      s!"1..={maxCredentialTtlMins} (a week)")
  ensure (1280 ≤ s.mtu ∧ s.mtu ≤ 9000) s!"network {id}: mtu {s.mtu} is outside 1280..=9000"
  ensure (s.restartGraceSecs ≤ 600)
    (s!"network {id}: restart_grace_secs {s.restartGraceSecs} is unreasonably large (max 600); " ++
      "it only holds view pushes after a coordinator restart while the fleet reconnects")

def NetworkConfig.check : Except String Unit := do
  checkSettings cfg.networkId cfg.settings
  ensure (cfg.cidrs.countP (fun | .v4 _ _ => true | .v6 _ _ => false) = 1)
    s!"network {cfg.networkId}: exactly one IPv4 CIDR is required"
  ensure (cfg.cidrs.countP (fun | .v4 _ _ => false | .v6 _ _ => true) ≤ 1)
    s!"network {cfg.networkId}: at most one IPv6 CIDR is allowed"
  each cfg.clients.keys fun name => ensure (name ∉ cfg.relays)
    s!"member {name} defined as both client and relay"
  let _ ← cfg.members.foldlM (checkMember env resolve cfg) []
  return ()

def NetworkConfig.truncated : NetworkConfig :=
  { cfg with
    cidrs := cfg.cidrs.map IpNet.trunc
    relays := cfg.relays.map fun _ m => { m with localCidrs := m.localCidrs.map IpNet.trunc } }

def validateNetworkWith : Except String NetworkConfig := do
  cfg.truncated.check env resolve
  return cfg.truncated

/-- A configuration against the addresses already handed out: none moves out of the
tunnel space, and no static address is another member's. -/
def validateAssignments (reg : Registry) : Except ApiError Unit := do
  each reg.records fun r => each r.addresses fun ip => ensure (cfg.inTunnel ip = true)
    (.badRequest s!"member {r.name} currently holds {env.renderIp ip}, outside the proposed tunnel CIDRs")
  each cfg.members fun m => each m.2.1.addresses fun ip =>
    each (reg.records.find? fun r => r.name ≠ m.1 ∧ ip ∈ r.addresses).toList fun owner => .error
      (.addressInUse s!"static address {env.renderIp ip} for {m.1} is currently assigned to {owner.name}")

end Checks

/-! ### What canonical form keeps -/

theorem validateNetworkWith_eq_ok {env : CoordText} {resolve : Resolver} {cfg cfg' : NetworkConfig}
    (h : validateNetworkWith env resolve cfg = .ok cfg') :
    cfg' = cfg.truncated ∧ cfg'.check env resolve = .ok () := by
  simp only [validateNetworkWith, bind_eq_ok, pure_eq_ok] at h
  obtain ⟨_, hcheck, rfl⟩ := h
  exact ⟨rfl, hcheck⟩

theorem memberByName_truncated (cfg : NetworkConfig) (name : String) :
    (cfg.truncated.memberByName name).map (fun m => (m.1.secret, m.2)) =
      (cfg.memberByName name).map fun m => (m.1.secret, m.2) := by
  simp only [NetworkConfig.memberByName, NetworkConfig.truncated, Std.ExtTreeMap.getElem?_map]
  cases cfg.clients[name]? with
  | some m => rfl
  | none => cases cfg.relays[name]? with
    | some m | none => rfl

end Nqvpn
