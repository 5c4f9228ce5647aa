import Nqvpn.Admission
import Nqvpn.Ipam
import Nqvpn.PeerTable

/-!
# Joining

A join carries nothing about the member but its secret and its keys. The secret
names the member; everything else is the operator's configuration, which every
join applies in full: the record in the registry is brought in line, committed,
published, and only then is a credential signed.
-/

namespace Nqvpn

open Fallible

structure JoinRequest where
  secret : String
  pubkey : String
  certFingerprint : String
deriving DecidableEq, Repr

structure JoinResponse where
  credential : Text
  networkId : String
  role : Role
  networkUuid : String
  coordinatorSigningKeys : List KeyInfo
  nodeId : NodeId
  name : String
  loginGen : Nat
  ip4 : Option (BitVec 32)
  subnet4 : Option IpNet
  ip6 : Option (BitVec 128)
  subnet6 : Option IpNet
  grantedCidrs : List IpNet
  relayAddr : Option String
  preferredRelay : Option String
  maxSessionMbps : Nat
  relays : List RelayEndpoint
  mtu : Nat
  keepaliveSecs : Nat
  transport : String
  lanes : Nat
  controlPort : Nat
  heartbeatSecs : Nat
deriving DecidableEq

/-- The clock as one operation reads it: seconds, seconds again while addresses are
reclaimed, and milliseconds at the publish. -/
structure Clock where
  now : Nat
  reclaimNow : Nat
  nowMs : Nat
deriving DecidableEq, Repr

/-- How the database calls of one operation turn out: saving the configuration, the
registry, reading the registry back after a failure, reading that of a network not
served, and saving the generation mark. -/
structure DbOutcome where
  config : Bool
  registry : Bool
  reload : Bool
  load : Bool
  mark : Bool
deriving DecidableEq, Repr

/-- What the coordinator signs with and announces. -/
structure Signing where
  keys : List KeyInfo
  sign : Claims → Text
  controlPort : Nat

def validPubkey (env : CoordText) (b64 : String) : Bool := (decodePubkey env.base64 b64).isSome

def isHexDigit (c : Char) : Bool :=
  ('0' ≤ c && c ≤ '9') || ('a' ≤ c && c ≤ 'f') || ('A' ≤ c && c ≤ 'F')

def validFingerprint (fp : String) : Bool :=
  match fp.toList with
  | 's' :: 'h' :: 'a' :: '2' :: '5' :: '6' :: ':' :: hex => hex.length == 64 && hex.all isHexDigit
  | _ => false

/-- `auto:` and a port means the address the join came from. -/
def effectiveRelayAddr (env : CoordText) (configured peerIp : String) : String :=
  match autoPort configured with
  | some port =>
    let port := String.ofList port
    match (env.parseIp peerIp).map IpAddr.toCanonical with
    | some (.v6 a) => s!"[{env.renderIp (.v6 a)}]:{port}"
    | some (.v4 a) => s!"{env.renderIp (.v4 a)}:{port}"
    | none => s!"{peerIp}:{port}"
  | none => configured

/-- The relay address a join publishes. The source address of an `auto:` relay is only
known now, so it is judged now. -/
def checkedRelayAddr (env : CoordText) (name configured peerIp : String) (cfg : NetworkConfig) :
    Except ApiError String := do
  if (autoPort configured).isSome then
    let ip ← orFail (env.parseIp peerIp)
      (.badRequest s!"relay {name}: cannot derive relay_addr from source {peerIp.quote}")
    (checkRelayIp env name configured ip.toCanonical cfg).mapError .badRequest
  return effectiveRelayAddr env configured peerIp

namespace NetState

def authenticate (ns : NetState) (name presented : String) : Option (MemberCfg × Role) :=
  (ns.cfg.memberByName name).filter fun m => m.1.secret.any fun s => trimText s == presented

/-- The prefixes the configuration declares for a member; an internet gateway is
granted the default routes. -/
def declaredRoutes (m : MemberCfg) (role : Role) : List IpNet :=
  let lans := if role = .relay then m.localCidrs.map IpNet.trunc else []
  if role = .relay ∧ m.internetGateway = some true then lans ++ [.v4 0#32 ⟨0, Nat.zero_lt_succ 32⟩, .v6 0#128 ⟨0, Nat.zero_lt_succ 128⟩]
  else lans

def renewRoutes (existing : List RouteReg) (declared : List IpNet) (now : Nat) : List RouteReg :=
  declared.foldl
    (fun routes c => if routes.any (·.cidr = c) then routes else routes ++ [⟨c, now⟩])
    (existing.filter (·.cidr ∈ declared))

def isReplacement (existing : Option MemberRecord) (req : JoinRequest) : Bool :=
  existing.any fun r => r.pubkey.isSome &&
    (decide (r.pubkey ≠ some req.pubkey) || decide (r.certFp ≠ some req.certFingerprint))

/-- What a join decides before anything is written. -/
structure JoinPlan where
  member : MemberCfg
  role : Role
  replaced : Bool
  registry : Registry
  record : MemberRecord

def joinedRecord (req : JoinRequest) (peerIp : String) (replaced : Bool) (granted : Granted)
    (routes : List RouteReg) (relayAddr : Option String) (now : Nat) (r : MemberRecord) :
    MemberRecord :=
  let r := if replaced then
      { r with loginGen := r.loginGen + 1, replacedUnix := some now, replacedFrom := r.lastJoinFrom }
    else r
  { r with
    pubkey := some req.pubkey, certFp := some req.certFingerprint
    ip4 := granted.ip4, ip6 := granted.ip6
    routes, relayAddr
    lastJoinUnix := some now, lastJoinFrom := some peerIp }

variable (env : CoordText)

def relayAddrOfJoin (ns : NetState) (name peerIp : String) (m : MemberCfg) :
    Role → Except ApiError (Option String)
  | .client => .ok none
  | .relay => do
    let configured ← orFail m.relayAddr (.badRequest s!"relay {name} has no relay_addr configured")
    let addr ← checkedRelayAddr env name configured peerIp ns.cfg
    return some addr

def joinPlan (ns : NetState) (name presented : String) (req : JoinRequest) (peerIp : String)
    (t : Clock) : Except ApiError JoinPlan := do
  ensure (ns.deleted = false) .badCredentials
  let (member, role) ← orFail (ns.authenticate name presented) .badCredentials
  let relayAddr ← relayAddrOfJoin env ns name peerIp member role
  let existing := ns.registry.byName name
  ensure (existing.any (·.disabled) = false) .clientDisabled
  let (granted, registry) ←
    if member.wantVpnIp.getD true then
      -- Nothing is reclaimed while the fleet may still be reconnecting.
      Ipam.allocateForJoin env ns.cfg ns.registry ns.leases (!ns.inGrace t.now) t.reclaimNow name
        member.preferredIp4 member.preferredIp6
    else .ok (⟨none, none⟩, ns.registry)
  let routes := renewRoutes ((existing.map (·.routes)).getD []) (declaredRoutes member role) t.now
  let replaced := isReplacement existing req
  let (registry, record) := registry.memberByNameMut name role t.now
    (joinedRecord req peerIp replaced granted routes relayAddr t.now)
  return { member, role, replaced, registry, record }

def joinClaims (ns : NetState) (plan : JoinPlan) (name : String) (req : JoinRequest) (now : Nat) :
    Claims where
  iss := issuer
  aud := audience
  networkId := ns.cfg.networkId
  networkUuid := ns.registry.networkUuid
  nodeId := plan.record.nodeId
  sub := name
  role := plan.role
  pubkey := req.pubkey
  certFp := req.certFingerprint
  prefixes := (plan.record.ip4.map fun ip => env.renderIp (.v4 ip) ++ "/32").toList ++
    (plan.record.ip6.map fun ip => env.renderIp (.v6 ip) ++ "/128").toList ++
    plan.record.routes.map fun r => env.net.render r.cidr
  loginGen := plan.record.loginGen
  iat := now
  exp := satAdd now (min (ns.cfg.settings.credentialTtlMins * 60) (2 ^ 64 - 1))

def joinResponse (ns : NetState) (plan : JoinPlan) (name : String) (claims : Claims)
    (signing : Signing) : JoinResponse where
  credential := signing.sign claims
  networkId := ns.cfg.networkId
  role := plan.role
  networkUuid := ns.registry.networkUuid
  coordinatorSigningKeys := signing.keys
  nodeId := plan.record.nodeId
  name := name
  loginGen := plan.record.loginGen
  ip4 := plan.record.ip4
  subnet4 := plan.record.ip4.bind fun ip => ns.cfg.cidrs.find? (·.containsAddr (.v4 ip))
  ip6 := plan.record.ip6
  subnet6 := plan.record.ip6.bind fun ip => ns.cfg.cidrs.find? (·.containsAddr (.v6 ip))
  grantedCidrs := plan.record.routes.map (·.cidr)
  relayAddr := plan.record.relayAddr
  preferredRelay := plan.member.preferredRelay
  maxSessionMbps := plan.member.maxSessionMbps.getD ns.cfg.settings.maxSessionMbps
  relays := relayEndpoints ns.cfg ns.registry
  mtu := ns.cfg.settings.mtu
  keepaliveSecs := ns.cfg.settings.heartbeatSecs
  transport := ns.cfg.settings.transport
  lanes := ns.cfg.settings.lanes
  controlPort := signing.controlPort
  heartbeatSecs := ns.cfg.settings.heartbeatSecs

def closeStale (ns : NetState) (plan : JoinPlan) (name peerIp : String) : NetState :=
  if plan.replaced && (ns.sessions[plan.record.nodeId]?).any (·.loginGen < plan.record.loginGen) then
    ns.closeSessionWith plan.record.nodeId closeReplaced
      s!"replaced by a newer join as {name} from {peerIp}"
  else ns

/-- The join transaction under the network's lock. Durability precedes visibility. -/
def join (ns : NetState) (name presented : String) (req : JoinRequest) (peerIp : String)
    (signing : Signing) (t : Clock) (db : DbOutcome) :
    NetState × Except ApiError (Claims × JoinResponse) :=
  match ns.joinPlan env name presented req peerIp t with
  | .error e => (ns, .error e)
  | .ok plan =>
    let committed := { ns with registry := plan.registry }.commit db.registry db.reload
    if committed.2 then
      let published := (committed.1.closeStale plan name peerIp).publish env.net env.encode
        signing.keys t.now t.nowMs db.mark
      let claims := published.joinClaims env plan name req t.now
      (published, .ok (claims, published.joinResponse plan name claims signing))
    else (committed.1, .error (.internal "registry commit failed (change discarded)"))

end NetState

end Nqvpn
