import Nqvpn.Snapshot

/-!
# The configuration and the durable registry of a network

The configuration is what the operator decided: the address space, the
settings, and the members with their secrets. The registry is what the
coordinator learned and must not lose: node ids, addresses handed out, login
generations and the generation high-water mark.
-/

namespace Nqvpn

structure MemberCfg where
  secret : Option String
  relayAddr : Option String
  localCidrs : List IpNet
  internetGateway : Option Bool
  preferredIp4 : Option (BitVec 32)
  preferredIp6 : Option (BitVec 128)
  wantVpnIp : Option Bool
  maxSessionMbps : Option Nat
  preferredRelay : Option String
deriving DecidableEq, Repr

def MemberCfg.default : MemberCfg := ⟨none, none, [], none, none, none, none, none, none⟩

structure SettingsCfg where
  credentialTtlMins : Nat
  heartbeatSecs : Nat
  offlineAfter : Nat
  holdDownSecs : Nat
  mtu : Nat
  relayReachability : String
  transport : String
  lanes : Nat
  maxSessionMbps : Nat
  restartGraceSecs : Nat
  allowLoopbackRelays : Bool
deriving DecidableEq, Repr

def SettingsCfg.default : SettingsCfg :=
  ⟨15, 5, 3, 60, 1350, "warn", "stream", 1, 0, 30, false⟩

def SettingsCfg.livenessWindowSecs (s : SettingsCfg) : Nat :=
  max s.heartbeatSecs 1 * max s.offlineAfter 1

structure NetworkConfig where
  networkId : String
  cidrs : List IpNet
  settings : SettingsCfg
  relays : Std.ExtTreeMap String MemberCfg
  clients : Std.ExtTreeMap String MemberCfg
deriving DecidableEq

namespace NetworkConfig

variable (cfg : NetworkConfig) (name : String)

def memberByName : Option (MemberCfg × Role) :=
  ((cfg.clients[name]?).map (·, Role.client)).or ((cfg.relays[name]?).map (·, Role.relay))

def modifyMember (f : MemberCfg → MemberCfg) :
    NetworkConfig :=
  match cfg.clients[name]? with
  | some m => { cfg with clients := cfg.clients.insert name (f m) }
  | none =>
    match cfg.relays[name]? with
    | some m => { cfg with relays := cfg.relays.insert name (f m) }
    | none => cfg

def members : List (String × MemberCfg × Role) :=
  cfg.clients.toList.map (fun p => (p.1, p.2, Role.client)) ++
    cfg.relays.toList.map (fun p => (p.1, p.2, Role.relay))

def insertMember (role : Role) (m : MemberCfg) :
    NetworkConfig :=
  match role with
  | .client => { cfg with clients := cfg.clients.insert name m }
  | .relay => { cfg with relays := cfg.relays.insert name m }

def removeMember : NetworkConfig × Bool :=
  if name ∈ cfg.clients then ({ cfg with clients := cfg.clients.erase name }, true)
  else ({ cfg with relays := cfg.relays.erase name }, decide (name ∈ cfg.relays))

end NetworkConfig

structure RouteReg where
  cidr : IpNet
  firstGrantedUnix : Nat
deriving DecidableEq, Repr

structure MemberRecord where
  nodeId : NodeId
  name : String
  role : Role
  pubkey : Option String
  certFp : Option String
  ip4 : Option (BitVec 32)
  ip6 : Option (BitVec 128)
  routes : List RouteReg
  relayAddr : Option String
  disabled : Bool
  createdUnix : Nat
  lastJoinUnix : Option Nat
  lastJoinFrom : Option String
  loginGen : Nat
  replacedUnix : Option Nat
  replacedFrom : Option String
deriving DecidableEq, Repr

structure Registry where
  allocCursor : Std.ExtTreeMap String Nat
  networkUuid : String
  nextNodeId : NodeId
  members : Std.ExtTreeMap NodeId MemberRecord
  genHwm : Nat
deriving DecidableEq

def genPersistStep : Nat := 1000

namespace Registry

def new (networkUuid : String) : Registry := ⟨∅, networkUuid, 1, ∅, 0⟩

variable (reg : Registry) (name : String)

def initialGen (nowMs : Nat) : Nat := max nowMs (reg.genHwm + genPersistStep)

/-- Record that `gen` was handed out; true when the mark must be persisted. -/
def noteGen (gen : Nat) : Registry × Bool :=
  if gen ≥ reg.genHwm then ({ reg with genHwm := gen + genPersistStep }, true) else (reg, false)

def records : List MemberRecord := reg.members.toList.map Prod.snd

def byName : Option MemberRecord :=
  reg.records.find? (fun m => m.name = name)

def idOf : Option NodeId := (reg.byName name).map (·.nodeId)

/-- The first id from `id` on that no record holds; `u32` arithmetic. -/
def freshId (members : Std.ExtTreeMap NodeId MemberRecord) : Nat → NodeId → NodeId
  | 0, id => id
  | fuel + 1, id => if id ∈ members then freshId members fuel ((id + 1) % 2 ^ 32) else id

def newRecord (id : NodeId) (name : String) (role : Role) (now : Nat) : MemberRecord where
  nodeId := id
  name := name
  role := role
  pubkey := none
  certFp := none
  ip4 := none
  ip6 := none
  routes := []
  relayAddr := none
  disabled := false
  createdUnix := now
  lastJoinUnix := none
  lastJoinFrom := none
  loginGen := 0
  replacedUnix := none
  replacedFrom := none

def memberMut (id : NodeId) (name : String) (role : Role) (now : Nat)
    (edit : MemberRecord → MemberRecord) : Registry × MemberRecord :=
  let rec_ := (reg.members[id]?).getD (newRecord id name role now)
  let rec_ := edit { rec_ with name := name, role := role }
  ({ reg with
     members := reg.members.insert id rec_
     nextNodeId := max reg.nextNodeId (min (id + 1) maxNodeId) }, rec_)

def memberByNameMut (role : Role) (now : Nat) (edit : MemberRecord → MemberRecord) : Registry × MemberRecord :=
  let id := (reg.idOf name).getD
    (freshId reg.members (reg.members.size + 1) (max reg.nextNodeId 1))
  reg.memberMut id name role now edit

def addRegistrant (text : IpNetText) (id : NodeId)
    (byCidr : Std.ExtTreeMap String (IpNet × List (NodeId × Nat))) (r : RouteReg) :
    Std.ExtTreeMap String (IpNet × List (NodeId × Nat)) :=
  let e := byCidr.getD (text.render r.cidr) (r.cidr, [])
  byCidr.insert (text.render r.cidr) (e.1, e.2 ++ [(id, r.firstGrantedUnix)])

def resolveOwners (text : IpNetText) (reg : Registry) : List (IpNet × List (NodeId × Nat)) :=
  let byCidr := reg.members.toList.foldl
    (fun m (p : NodeId × MemberRecord) =>
      if p.2.disabled then m else p.2.routes.foldl (addRegistrant text p.1) m) ∅
  byCidr.toList.map fun p =>
    (p.2.1, p.2.2.insertionSort (fun a b => toLex (a.2, a.1) ≤ toLex (b.2, b.1)))

end Registry

end Nqvpn
