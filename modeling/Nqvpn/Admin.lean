import Nqvpn.Join

/-!
# Operator mutations

Networks and members are created, changed and removed here. Every change is
validated as a whole network first, committed to the database and then applied,
which includes telling affected members to re-join. The state the operations
change is the coordinator's: the networks it serves, each with its rows in the
database, and the rows of networks it does not serve.
-/

namespace Nqvpn

open Fallible ApiError

/-- A network as the operator creates or edits it. -/
structure NetworkSpec where
  networkId : String
  ipv4Cidr : BitVec 32 × Fin 33
  ipv6Cidr : Option (BitVec 128 × Fin 129)
  settings : SettingsCfg
deriving DecidableEq, Repr

def NetworkSpec.cidrs (spec : NetworkSpec) : List IpNet :=
  .v4 spec.ipv4Cidr.1 spec.ipv4Cidr.2 :: (spec.ipv6Cidr.map fun c => IpNet.v6 c.1 c.2).toList

/-- A member as the operator creates or edits it. The secret is never part of it. -/
structure MemberSpec where
  relayAddr : Option String
  localCidrs : List IpNet
  preferredIp4 : Option (BitVec 32)
  preferredIp6 : Option (BitVec 128)
  wantVpnIp : Option Bool
  maxSessionMbps : Option Nat
  preferredRelay : Option String
  internetGateway : Option Bool
deriving DecidableEq, Repr

def MemberSpec.apply (spec : MemberSpec) (m : MemberCfg) : MemberCfg where
  secret := m.secret
  relayAddr := spec.relayAddr
  localCidrs := spec.localCidrs
  preferredIp4 := spec.preferredIp4
  preferredIp6 := spec.preferredIp6
  wantVpnIp := spec.wantVpnIp
  maxSessionMbps := spec.maxSessionMbps
  preferredRelay := spec.preferredRelay
  internetGateway := spec.internetGateway

def MemberCfg.factsEqual (m o : MemberCfg) : Bool := { m with secret := none } = { o with secret := none }

def changedMembers (old new : NetworkConfig) : List String :=
  (new.members.filter fun m =>
    !(old.memberByName m.1).any fun o => o.2 == m.2.2 && o.1.factsEqual m.2.1).map (·.1)

def everyoneMustRejoin (old new : NetworkConfig) : Bool :=
  decide (old.cidrs ≠ new.cidrs) || decide (old.settings.mtu ≠ new.settings.mtu) ||
    decide (old.settings.transport ≠ new.settings.transport) ||
    decide (old.settings.lanes ≠ new.settings.lanes) ||
    decide (old.settings.heartbeatSecs ≠ new.settings.heartbeatSecs) ||
    decide (old.settings.credentialTtlMins ≠ new.settings.credentialTtlMins) ||
    decide (old.settings.maxSessionMbps ≠ new.settings.maxSessionMbps)

/-- What an operation reads from outside. -/
structure AdminReading where
  resolve : Resolver
  clock : Clock
  db : DbOutcome

namespace NetState

variable (env : CoordText) (keys : List KeyInfo) (r : AdminReading)
variable (ns : NetState) (cfg : NetworkConfig) (name : String) (reg : Registry)

def publishNow : NetState :=
  ns.publish env.net env.encode keys r.clock.now r.clock.nowMs r.db.mark

def proposed : Except ApiError NetworkConfig := do
  let cfg ← (validateNetworkWith env r.resolve cfg).mapError badRequest
  validateAssignments env cfg ns.registry
  return cfg

def configFailed : ApiError := .internal "config commit failed"
def commitFailed : ApiError := .internal "registry commit failed (change discarded)"

def updateNetwork (spec : NetworkSpec) : NetState × Except ApiError Unit :=
  match ns.proposed env r { ns.cfg with cidrs := spec.cidrs, settings := spec.settings } with
  | .error e => (ns, .error e)
  | .ok cfg =>
    let saved := { ns with cfg }.saveConfig r.db.config
    if saved.2 then
      let held := { saved.1 with
        directory := { saved.1.directory with holdDownSecs := cfg.settings.holdDownSecs } }
      let told := if everyoneMustRejoin ns.cfg cfg then held.reconfigureAll "network settings changed"
        else held
      (told.publishNow env keys r, .ok ())
    else (saved.1, .error configFailed)

/-- Declare a member; `secret` is the generated one. -/
def createMember (role : Role) (spec : MemberSpec) (secret : String) :
    NetState × Except ApiError String :=
  let m := { spec.apply MemberCfg.default with secret := some secret }
  match (do
      ensure (ns.cfg.memberByName name = none) (badRequest s!"member {name.quote} already exists")
      ns.proposed env r (ns.cfg.insertMember name role m)) with
  | .error e => (ns, .error e)
  | .ok cfg =>
    let saved := { ns with cfg }.saveConfig r.db.config
    if saved.2 then (saved.1, .ok secret) else (saved.1, .error configFailed)

def reconfigureNamed (names : List String) (why : String) : NetState :=
  names.foldl (fun ns name => ((ns.registry.idOf name).map fun node => ns.reconfigure node why).getD ns)
    ns

def updateMember (spec : MemberSpec) :
    NetState × Except ApiError Unit :=
  match (do
      let _ ← orFail (ns.cfg.memberByName name) (notFound s!"member {name.quote}")
      ns.proposed env r (ns.cfg.modifyMember name spec.apply)) with
  | .error e => (ns, .error e)
  | .ok cfg =>
    let saved := { ns with cfg }.saveConfig r.db.config
    if saved.2 then
      let told := saved.1.reconfigureNamed (changedMembers ns.cfg cfg) "configuration changed"
      (told.publishNow env keys r, .ok ())
    else (saved.1, .error configFailed)

def rotateMember (secret : String) : NetState × Except ApiError String :=
  if (ns.cfg.memberByName name).isSome then
    let saved := { ns with
      cfg := ns.cfg.modifyMember name fun m => { m with secret := some secret } }.saveConfig r.db.config
    if saved.2 then
      match ns.registry.idOf name with
      | none => (saved.1, .ok secret)
      | some node =>
        let bumped := { ns.registry with members := ns.registry.members.modify node fun rec_ =>
          { rec_ with loginGen := rec_.loginGen + 1, replacedUnix := some r.clock.now
                      replacedFrom := some "secret rotated" } }
        let committed := { saved.1 with registry := bumped }.commit r.db.registry r.db.reload
        if committed.2 then
          ((committed.1.closeSession node "secret rotated").publishNow env keys r, .ok secret)
        else (committed.1, .error commitFailed)
    else (saved.1, .error configFailed)
  else (ns, .error (.notFound s!"member {name.quote}"))

def forget (node : NodeId) : NetState :=
  { ns with
    leases := ns.leases.removeRelay node
    directory := { ns.directory with
      traffic := ns.directory.traffic.erase node
      reportedMtu := ns.directory.reportedMtu.erase node } }

def deleteMember : NetState × Except ApiError Unit :=
  let removed := ns.cfg.removeMember name
  let node := ns.registry.idOf name
  if !removed.2 && node.isNone then (ns, .error (.notFound s!"member {name.quote}"))
  else
    let saved := { ns with cfg := removed.1 }.saveConfig r.db.config
    if saved.2 then
      match node with
      | none => (saved.1.publishNow env keys r, .ok ())
      | some node =>
        let erased := { ns.registry with members := ns.registry.members.erase node }
        let committed := { saved.1 with registry := erased }.commit r.db.registry r.db.reload
        if committed.2 then
          (((committed.1.closeSession node "member deleted").forget node).publishNow env keys r, .ok ())
        else (committed.1, .error commitFailed)
    else (saved.1, .error configFailed)

def evict (node : NodeId) (role : Role) : NetState :=
  let closed := ns.closeSession node "member disabled"
  { closed with
    leases := if role = .relay then closed.leases.removeRelay node else closed.leases.remove node }

def setDisabled (disabled : Bool) : NetState × Except ApiError Unit :=
  match ns.registry.idOf name with
  | none => (ns, .error (.notFound s!"member {name.quote} has never joined"))
  | some node =>
    match ns.registry.members[node]? with
    | none => (ns, .error (.notFound s!"member {name.quote}"))
    | some rec_ =>
      let edited := { ns.registry with members := ns.registry.members.insert node { rec_ with disabled } }
      let committed := { ns with registry := edited }.commit r.db.registry r.db.reload
      if committed.2 then
        let told := if disabled then committed.1.evict node rec_.role else committed.1
        (told.publishNow env keys r, .ok ())
      else (committed.1, .error commitFailed)

/-! ### Import, one network -/

/-- Why an import retires a member's credentials: they carry its role, and one minted
under a replaced secret must not outlive it. -/
def retiredWhy (old : Option NetworkConfig) (cfg : NetworkConfig) (rec_ : MemberRecord) :
    Option String :=
  (cfg.memberByName rec_.name).bind fun (m, role) =>
    if role ≠ rec_.role then some "role changed by import"
    else if (old.bind (·.memberByName rec_.name)).any fun (o, _) =>
        o.secret.isSome && decide (o.secret ≠ m.secret) then some "secret replaced by import"
    else none

def importedRegistry (old : Option NetworkConfig) (cfg : NetworkConfig) (reg : Registry) (now : Nat) :
    Registry :=
  { reg with members := reg.members.map fun _ rec_ =>
      match retiredWhy old cfg rec_ with
      | some why => { rec_ with
          loginGen := rec_.loginGen + 1, replacedUnix := some now, replacedFrom := some why }
      | none => rec_ }

def importRetires : List (NodeId × String) :=
  reg.records.filterMap fun rec_ =>
    if (ns.registry.members[rec_.nodeId]?).any (·.loginGen < rec_.loginGen) then
      some (rec_.nodeId, "credential retired by import")
    else if cfg.memberByName rec_.name = none then some (rec_.nodeId, "member removed by import")
    else none

def applyImport : NetState :=
  let replaced := { ns with
    cfg, registry := reg, stored := ⟨some cfg, some reg⟩
    directory := { ns.directory with holdDownSecs := cfg.settings.holdDownSecs } }
  let retired := (ns.importRetires cfg reg).foldl (fun ns x => ns.closeSession x.1 x.2) replaced
  let told := if everyoneMustRejoin ns.cfg cfg then retired.reconfigureAll "configuration imported"
    else retired.reconfigureNamed (changedMembers ns.cfg cfg) "configuration imported"
  told.publishNow env keys r

def created : NetState :=
  { NetState.new env.encode cfg reg ⟨some cfg, some reg⟩ r.clock.now r.clock.nowMs with startedAt := 0 }

end NetState

/-! ### The coordinator -/

/-- The networks served, the rows of networks that are not, and what is signed with. -/
structure Coordinator (K : Type) extends AppState K where
  shelf : Std.ExtTreeMap String StoredRows
  signing : Signing
  /-- The key id and verifying key of the active signing key. -/
  active : String × K

/-- An operation on one network. -/
inductive NetworkOp
  | updateNetwork (spec : NetworkSpec)
  | createMember (name : String) (role : Role) (spec : MemberSpec) (secret : String)
  | updateMember (name : String) (spec : MemberSpec)
  | rotateMember (name secret : String)
  | deleteMember (name : String)
  | setDisabled (name : String) (disabled : Bool)

def NetworkOp.precheck : NetworkOp → Except ApiError Unit
  | .createMember name _ _ _ => validName name
  | _ => .ok ()

def NetState.exec (env : CoordText) (keys : List KeyInfo) (r : AdminReading) (ns : NetState) :
    NetworkOp → NetState × Except ApiError Unit
  | .updateNetwork spec => ns.updateNetwork env keys r spec
  | .createMember name role spec secret =>
    let done := ns.createMember env r name role spec secret
    (done.1, done.2.map fun _ => ())
  | .updateMember name spec => ns.updateMember env keys r name spec
  | .rotateMember name secret =>
    let done := ns.rotateMember env keys r name secret
    (done.1, done.2.map fun _ => ())
  | .deleteMember name => ns.deleteMember env keys r name
  | .setDisabled name disabled => ns.setDisabled env keys r name disabled

/-- The operator's operations; new secrets and network uuids are the generated ones. -/
inductive AdminOp
  | edit (id : String) (op : NetworkOp)
  | createNetwork (spec : NetworkSpec) (uuid : String)
  | deleteNetwork (id : String)
  | importNetworks (cfgs : List NetworkConfig) (uuid : String → String)

namespace Coordinator

variable {K : Type} (env : CoordText) (r : AdminReading) (st : Coordinator K)
variable (id : String)

def setNetwork (ns : NetState) : Coordinator K :=
  { st with networks := st.networks.insert id ns, shelf := st.shelf.erase id }

def edit (op : NetworkOp) : Coordinator K × Except ApiError Unit :=
  match op.precheck with
  | .error e => (st, .error e)
  | .ok _ =>
    match st.networks[id]? with
    | none => (st, .error (.notFound s!"network {id.quote}"))
    | some ns =>
      let done := ns.exec env st.signing.keys r op
      ({ st with networks := st.networks.insert id done.1 }, done.2)

def createNetwork (spec : NetworkSpec) (uuid : String) : Coordinator K × Except ApiError Unit :=
  match (do
      validName spec.networkId
      let cfg ← (validateNetworkWith env r.resolve
        ⟨spec.networkId, spec.cidrs, spec.settings, ∅, ∅⟩).mapError badRequest
      ensure (st.networks[spec.networkId]?.isNone = true)
        (badRequest s!"network {spec.networkId.quote} already exists")
      ensure (r.db.config = true) (internal "saving network")
      return cfg) with
  | .error e => (st, .error e)
  | .ok cfg => (st.setNetwork spec.networkId (NetState.created env r cfg (Registry.new uuid)), .ok ())

def deleteNetwork : Coordinator K × Except ApiError Unit :=
  match (do
      let _ ← orFail st.networks[id]? (notFound s!"network {id.quote}")
      ensure (r.db.config = true) (internal "deleting network")) with
  | .error e => (st, .error e)
  | .ok _ => ({ st with networks := st.networks.erase id }, .ok ())

/-! ### Import -/

def checkImported (checked : List NetworkConfig) (cfg : NetworkConfig) :
    Except ApiError (List NetworkConfig) := do
  validName cfg.networkId
  ensure (cfg.networkId ∉ checked.map (·.networkId))
    (.badRequest s!"network {cfg.networkId.quote} appears twice")
  each cfg.members fun m => (validName m.1).mapError fun e =>
    .badRequest s!"network {cfg.networkId}: {e.message}"
  let cfg ← (validateNetworkWith env r.resolve cfg).mapError badRequest
  return checked ++ [cfg]

def secretsOf (cfg : NetworkConfig) : List (String × String) :=
  cfg.members.filterMap fun m => m.2.1.secret.map fun s => (trimText s, s!"{id}/{m.1}")

def claimSecret (owners : List (String × String)) (claim : String × String) :
    Except ApiError (List (String × String)) :=
  match owners.lookup claim.1 with
  | some prev =>
    .error (.badRequest s!"{claim.2} and {prev} have the same secret; every member's must be unique")
  | none => .ok (claim :: owners)

def registryFor (uuid : String → String) (id : String) : Except ApiError Registry :=
  match st.networks[id]? with
  | some ns => .ok ns.registry
  | none => do
    ensure (r.db.load = true) (.internal "loading registry")
    return ((st.shelf[id]?).bind (·.registry)).getD (Registry.new (uuid id))

def importRow (uuid : String → String) (cfg : NetworkConfig) :
    Except ApiError (NetworkConfig × Registry) := do
  let reg ← st.registryFor r uuid cfg.networkId
  validateAssignments env cfg reg
  return (cfg, NetState.importedRegistry ((st.networks[cfg.networkId]?).map (·.cfg)) cfg reg r.clock.now)

def importRows (cfgs : List NetworkConfig) (uuid : String → String) :
    Except ApiError (List (NetworkConfig × Registry)) := do
  let checked ← cfgs.foldlM (checkImported env r) []
  let sorted := checked.insertionSort fun a b => a.networkId ≤ b.networkId
  let others := st.networks.toList.filter fun p => p.1 ∉ sorted.map (·.networkId)
  let _ ← ((sorted.flatMap fun cfg => secretsOf cfg.networkId cfg) ++
    others.flatMap fun p => secretsOf p.1 p.2.cfg).foldlM claimSecret []
  let rows ← gather sorted (st.importRow env r uuid)
  ensure (r.db.config = true) (.internal "saving imported configuration")
  return rows

def applyRow (st : Coordinator K) (row : NetworkConfig × Registry) : Coordinator K :=
  st.setNetwork row.1.networkId
    (match st.networks[row.1.networkId]? with
    | some ns => ns.applyImport env st.signing.keys r row.1 row.2
    | none => NetState.created env r row.1 row.2)

/-- Replace networks whole, members included, and create those that are new: all or
nothing. Registries are kept. -/
def importNetworks (cfgs : List NetworkConfig) (uuid : String → String) :
    Coordinator K × Except ApiError (List String) :=
  match st.importRows env r cfgs uuid with
  | .error e => (st, .error e)
  | .ok rows => (rows.foldl (applyRow env r) st, .ok (rows.map (·.1.networkId)))

def exec : AdminOp → Coordinator K × Except ApiError Unit
  | .edit id op => st.edit env r id op
  | .createNetwork spec uuid => st.createNetwork env r spec uuid
  | .deleteNetwork id => st.deleteNetwork r id
  | .importNetworks cfgs uuid =>
    let done := st.importNetworks env r cfgs uuid
    (done.1, done.2.map fun _ => ())

end Coordinator

end Nqvpn
