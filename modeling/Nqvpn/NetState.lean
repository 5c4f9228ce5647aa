import Nqvpn.Directory

/-!
# One network at the coordinator

The state one network lock guards, and what runs under that lock: publishing,
the control sessions with their bounded push queues, catch-up, heartbeats,
teardown and the liveness sweep. A session's `link` is its push queue together
with the connection it is written to. Sessions that are no longer registered
stay in `retired` for as long as their connection may still carry something.
Clock readings and the outcome of each database write are arguments.
-/

namespace Nqvpn

def pushQueue : Nat := 256

def publishDebounceMs : Nat := 150

def closeTimeout : Nat := 1
def closeSuperseded : Nat := 2
def closeVersion : Nat := 3
def closeEvicted : Nat := 4
def closeOverflow : Nat := 5
def closeExpired : Nat := 6
def closeReplaced : Nat := 7
def closeReconfigured : Nat := 8

/-- What a session's writer task can be asked to send. -/
inductive Push
  | delta (d : Delta)
  | snapshot (s : Snapshot)
  | raw (bytes : List UInt8)
  | close (reason : String)
deriving DecidableEq

/-- A push queue and the connection it feeds: `queue` waits for the writer task,
`wire` is written and not yet read by the process `peer`. -/
structure Link where
  peer : Nat
  queue : List Push
  writing : Bool
  wire : List Push
  closed : Option (Nat × String)
deriving DecidableEq

namespace Link

def new (peer : Nat) : Link := ⟨peer, [], true, [], none⟩

def trySend (l : Link) (p : Push) : Option Link :=
  if l.writing && l.queue.length < pushQueue then some { l with queue := l.queue ++ [p] } else none

def sendAll (l : Link) : List Push → Link × Bool
  | [] => (l, true)
  | p :: ps =>
    match l.trySend p with
    | some l => l.sendAll ps
    | none => (l, false)

def close (l : Link) (code : Nat) (reason : String) : Link :=
  { l with closed := l.closed.or (some (code, reason)) }

end Link

structure Session where
  id : Nat
  nodeId : NodeId
  role : Role
  exp : Nat
  loginGen : Nat
  synced : Bool
  link : Link
deriving DecidableEq

namespace Session

def overflow (s : Session) : Session :=
  { s with synced := false, link := s.link.close closeOverflow "push queue overflow" }
variable (s : Session)

def shut (push : String) (code : Nat) (reason : String) : Session :=
  { s with link := ((s.link.trySend (.close push)).getD s.link).close code reason }

def catchUp (pushes : List Push) : Session :=
  match s.link.sendAll pushes with
  | (link, true) => { s with link := link, synced := true }
  | (link, false) => { s with link := link }.overflow

def pushDelta (d : Delta) : Session :=
  if !s.synced then s
  else
    match s.link.trySend (.delta d) with
    | some link => { s with link := link }
    | none => s.overflow

end Session

/-- This network's rows in the database. -/
structure StoredRows where
  config : Option NetworkConfig
  registry : Option Registry
deriving DecidableEq

structure NetState where
  cfg : NetworkConfig
  registry : Registry
  directory : Directory
  leases : Leases
  sessions : Std.ExtTreeMap NodeId Session
  retired : List Session
  startedAt : Nat
  deleted : Bool
  lastPublishMs : Nat
  flushScheduled : Bool
  stored : StoredRows

namespace NetState

variable (text : IpNetText) (encode : Snapshot → List UInt8)

def new (cfg : NetworkConfig) (registry : Registry) (stored : StoredRows) (now nowMs : Nat) :
    NetState where
  cfg := cfg
  registry := registry
  directory := Directory.new encode (registry.initialGen nowMs) cfg.settings.holdDownSecs
  leases := Leases.default
  sessions := ∅
  retired := []
  startedAt := now
  deleted := false
  lastPublishMs := 0
  flushScheduled := false
  stored := stored

variable (ns : NetState) (node : NodeId) (keys : List KeyInfo) (role : Role) (hb : Heartbeat)
  (now nowMs : Nat) (saveOk : Bool)

def inGrace : Bool :=
  now < ns.startedAt + ns.cfg.settings.restartGraceSecs

def broadcastDelta (d : Delta) : NetState :=
  { ns with sessions := ns.sessions.map (fun _ s => s.pushDelta d) }

/-- Recompute the view and, if it changed, push the delta to every synced session. -/
def publish : NetState :=
  let ns := { ns with lastPublishMs := nowMs }
  match ns.directory.recompute text encode ns.cfg ns.registry ns.leases keys now nowMs with
  | (d, none) => { ns with directory := d }
  | (d, some delta) =>
    let noted := ns.registry.noteGen d.gen
    let stored := if noted.2 && saveOk then { ns.stored with registry := some noted.1 } else ns.stored
    { ns with directory := d, registry := noted.1, stored := stored }.broadcastDelta delta

/-- Publish now unless the view was recomputed within the debounce interval; then
the delay after which the caller must publish, once. -/
def publishSoon :
    NetState × Option Nat :=
  let since := nowMs - ns.lastPublishMs
  if since ≥ publishDebounceMs then (ns.publish text encode keys now nowMs saveOk, none)
  else if ns.flushScheduled then (ns, none)
  else ({ ns with flushScheduled := true }, some (publishDebounceMs - since))

def flush : NetState :=
  { ns with flushScheduled := false }.publish text encode keys now nowMs saveOk

def commit (loadOk : Bool) : NetState × Bool :=
  if saveOk then ({ ns with stored := { ns.stored with registry := some ns.registry } }, true)
  else
    match ns.stored.registry, loadOk with
    | some reg, true => ({ ns with registry := reg }, false)
    | _, _ => (ns, false)

def saveConfig : NetState × Bool :=
  if saveOk then ({ ns with stored := { ns.stored with config := some ns.cfg } }, true)
  else (ns, false)

def dropSession (finish : Session → Session) : NetState :=
  match ns.sessions[node]? with
  | some s => { ns with sessions := ns.sessions.erase node, retired := finish s :: ns.retired }
  | none => ns

def closeSessionWith (code : Nat) (reason : String) : NetState :=
  ns.dropSession node (fun s => s.shut reason code reason)

def closeSession (ns : NetState) (node : NodeId) (reason : String) : NetState :=
  ns.closeSessionWith node closeEvicted reason

def reconfigure (why : String) : NetState :=
  ns.closeSessionWith node closeReconfigured why

def reconfigureAll (why : String) : NetState :=
  ns.sessions.keys.foldl (fun ns node => ns.reconfigure node why) ns

/-- The pushes that bring a holder of `haveGen` to the current view. -/
def catchUpPushes (haveGen : Nat) : List Push :=
  match ns.directory.deltasSince haveGen with
  | some chain => chain.map Push.delta
  | none => [.snapshot ns.directory.published]

def catchUp (ns : NetState) (node : NodeId) (haveGen : Nat) : NetState :=
  match ns.sessions[node]? with
  | some s =>
    { ns with sessions := ns.sessions.insert node (s.catchUp (ns.catchUpPushes haveGen)) }
  | none => ns

/-- Register a verified connection: supersede any older session for the node,
mark it alive, publish, and queue what it needs to be current. -/
def register (s : Session) (haveGen : Nat) (keys : List KeyInfo) (now nowMs : Nat) (saveOk : Bool) : NetState :=
  let ns := ns.dropSession s.nodeId id
  let ns := { ns with
    sessions := ns.sessions.insert s.nodeId s
    leases := (ns.leases.seen s.nodeId nowMs).1 }
  let ns := ns.publish text encode keys now nowMs saveOk
  if ns.inGrace now then ns else ns.catchUp s.nodeId haveGen

def teardown (id : Nat) (keys : List KeyInfo) (now nowMs : Nat) (saveOk : Bool) : NetState :=
  if (ns.sessions[node]?).map Session.id = some id then
    let ns := ns.dropSession node (fun s => s)
    { ns with
      leases := ns.leases.offline node
      directory := { ns.directory with
        reportedMtu := ns.directory.reportedMtu.erase node
        exitReadiness := ns.directory.exitReadiness.erase node } }.publish
      text encode keys now nowMs saveOk
  else ns

def foldHeartbeat : NetState × Bool :=
  let isClient := fun n => ((ns.registry.members[n]?).map (fun r => r.role == .client)).getD false
  let heard := ns.leases.heartbeat node role hb nowMs isClient ns.registry.members.size
  let q := quantizeMtu hb.usableMtu ns.cfg.settings.mtu
  let mtuChanged := hb.usableMtu > 0 && ns.directory.reportedMtu[node]? != some q
  let directory :=
    if hb.usableMtu > 0 then
      { ns.directory with reportedMtu := ns.directory.reportedMtu.insert node q }
    else ns.directory
  let directory :=
    match hb.traffic, role with
    | some t, .relay =>
      directory.recordTraffic node t now (fun n => ns.registry.members.contains n)
        ns.registry.members.size
    | _, _ => directory
  ({ ns with leases := heard.1, directory := directory }, heard.2 || mtuChanged)

theorem foldHeartbeat_sameView :
    Directory.SameView ns.directory (ns.foldHeartbeat node role hb now nowMs).1.directory := by
  unfold foldHeartbeat
  simp only
  constructor <;> split <;> split_ifs <;> rfl

def answerHeartbeat : NetState :=
  if ns.inGrace now then ns
  else if hb.gen ≠ ns.directory.gen then ns.catchUp node hb.gen
  else if hb.digest ≠ ns.directory.publishedDigest then ns.catchUp node 0
  else ns

def onHeartbeat (keys : List KeyInfo) (now nowMs : Nat) (saveOk : Bool) : NetState :=
  let folded := ns.foldHeartbeat node role hb now nowMs
  let ns :=
    if folded.2 then (folded.1.publishSoon text encode keys now nowMs saveOk).1 else folded.1
  ns.answerHeartbeat node hb now

def onExitReadiness (er : ExitReadiness) (keys : List KeyInfo) (now nowMs : Nat) (saveOk : Bool) : NetState :=
  let changed := ns.directory.exitReadiness[node]? != some er
  let ns := { ns with directory := { ns.directory with
    exitReadiness := ns.directory.exitReadiness.insert node er } }
  if changed then (ns.publishSoon text encode keys now nowMs saveOk).1 else ns

def onResync (haveGen now : Nat) : NetState :=
  if ns.inGrace now then ns else ns.catchUp node haveGen

def applyRefresh (exp loginGen nowMs : Nat) : NetState :=
  { ns with
    sessions := ns.sessions.alter node
      (Option.map fun s => { s with exp := exp, loginGen := loginGen })
    leases := (ns.leases.seen node nowMs).1 }

def sweepSilent : NetState :=
  { ns with directory := { ns.directory with
      reportedMtu := ns.directory.reportedMtu.erase node } }.closeSessionWith
    node closeTimeout "keepalive timeout"

def sweepExpired : NetState :=
  ns.closeSessionWith node closeExpired "credential expired"

/-- Expire silent members, close sessions whose credential expired, and
re-evaluate what falls due by time alone. -/
def sweep : NetState :=
  let window := ns.cfg.settings.livenessWindowSecs
  let lapsed := ns.leases.expire nowMs (window * 1000)
  let ns := { ns with directory := ns.directory.pruneTraffic now, leases := lapsed.1 }
  let ns := lapsed.2.foldl sweepSilent ns
  let expired := ((ns.sessions.toList.map Prod.snd).filter (fun s => s.exp ≤ now)).map Session.nodeId
  let ns := expired.foldl sweepExpired ns
  ns.publish text encode keys now nowMs saveOk

end NetState

end Nqvpn
