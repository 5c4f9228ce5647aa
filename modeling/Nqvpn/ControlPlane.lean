import Nqvpn.NetworkOps
import Nqvpn.TransitionSystem

/-!
# Control connections

Every control connection has a task of its own. It verifies the credential under one
acquisition of the network's lock and registers the session under another. Then it
works off what the member sends: a heartbeat over budget waits, and a newer one takes
its place; a renewal is again verified and applied separately. Whatever ends the
session, the task goes on until it notices.
-/

namespace Nqvpn

/-- What a member sends on its control session. A renewal stands for the claims of the
credential it carries. -/
inductive ControlMsg
  | heartbeat (hb : Heartbeat)
  | exitReadiness (er : ExitReadiness)
  | resync (haveGen : Nat)
  | refresh (c : Claims)
deriving DecidableEq

inductive ConnStage
  /-- The credential is verified, the session not yet registered. -/
  | verified
  | serving
  /-- The credential of a renewal is verified and not yet applied. -/
  | renewing (c : Claims)
  /-- The loop has ended, the session is not yet torn down. -/
  | leaving
  | ended
deriving DecidableEq

/-- The task of one control connection: what it has read and not handled, the heartbeat
that waits for the next token, and, for the record, the MTUs and the readiness that
were reported on it, as they were taken. -/
structure Conn where
  claims : Claims
  stage : ConnStage
  inbox : List ControlMsg
  pending : Option Heartbeat
  limits : List Nat
  reports : List ExitReadiness

/-- What a network says of verified claims: they name an enabled member and no newer
join. -/
def NetState.vouches (ns : NetState) (c : Claims) : Bool :=
  !ns.deleted && (ns.registry.members[c.nodeId]?).any fun r =>
    r.nodeId = c.nodeId && !r.disabled && r.loginGen ≤ c.loginGen

/-- What one connection does next. Whether the heartbeat budget has a token left is
part of the reading. -/
inductive ConnEvent
  | register (haveGen : Nat) (p : Publishing)
  | arrive (m : ControlMsg)
  | handle (token : Bool) (p : Publishing)
  | fire (p : Publishing)
  | renew (nowMs : Nat)
  | finish (p : Publishing)

namespace Conn

def new (c : Claims) : Conn := ⟨c, .verified, [], none, [], []⟩

def node (k : Conn) : NodeId := k.claims.nodeId

def session (k : Conn) (id : Nat) : Session :=
  ⟨id, k.claims.nodeId, k.claims.role, k.claims.exp, k.claims.loginGen, false, Link.new id⟩

def sameIdentity (k : Conn) (c : Claims) : Bool :=
  c.networkId = k.claims.networkId && c.nodeId = k.claims.nodeId && c.role = k.claims.role &&
    c.certFp = k.claims.certFp

def foldHeartbeat (k : Conn) (ns : NetState) (hb : Heartbeat) (p : Publishing) :
    Conn × Option LockedOp :=
  ({ k with limits :=
      if 0 < hb.usableMtu then quantizeMtu hb.usableMtu ns.cfg.settings.mtu :: k.limits else k.limits },
    some (.heartbeat k.claims.nodeId k.claims.role hb p))

def receive (k : Conn) (ns : NetState) (token : Bool) (p : Publishing) :
    ControlMsg → Conn × Option LockedOp
  | .heartbeat hb =>
    if k.pending.isNone && token then k.foldHeartbeat ns hb p else ({ k with pending := some hb }, none)
  | .exitReadiness er =>
    if k.claims.role = .relay then
      ({ k with reports := er :: k.reports }, some (.exitReadiness k.claims.nodeId er p))
    else ({ k with stage := .leaving }, none)
  | .resync haveGen => (k, some (.resync k.claims.nodeId haveGen p.now))
  | .refresh c =>
    ({ k with stage := if ns.vouches c && k.sameIdentity c then .renewing c else .leaving }, none)

def advance (k : Conn) (id : Nat) (ns : NetState) : ConnEvent → Option (Conn × Option LockedOp)
  | .register haveGen p =>
    match k.stage with
    | .verified => some ({ k with stage := .serving }, some (.register (k.session id) haveGen p))
    | _ => none
  | .arrive m =>
    match k.stage with
    | .verified | .ended => none
    | _ => some ({ k with inbox := k.inbox ++ [m] }, none)
  | .handle token p =>
    match k.stage, k.inbox with
    | .serving, m :: inbox => some ({ k with inbox }.receive ns token p m)
    | _, _ => none
  | .fire p =>
    match k.stage, k.pending with
    | .serving, some hb => some ({ k with pending := none }.foldHeartbeat ns hb p)
    | _, _ => none
  | .renew nowMs =>
    match k.stage with
    | .renewing c =>
      some ({ k with stage := .serving }, some (.refresh k.claims.nodeId c.exp c.loginGen nowMs))
    | _ => none
  | .finish p =>
    match k.stage with
    | .serving | .leaving => some ({ k with stage := .ended }, some (.teardown k.claims.nodeId id p))
    | _ => none

/-- What a connection can do, apart from how it got to it. -/
inductive Advances (k : Conn) (id : Nat) (ns : NetState) : Conn → Option LockedOp → Prop
  | register {haveGen : Nat} {p : Publishing} (stage : k.stage = .verified) :
    Advances k id ns { k with stage := .serving } (some (.register (k.session id) haveGen p))
  /-- Nothing under the lock; it may have verified a renewal. -/
  | quiet {k' : Conn} (registered : k.stage ≠ .verified) (claims : k'.claims = k.claims)
    (limits : k'.limits = k.limits) (reports : k'.reports = k.reports)
    (stage : k'.stage = k.stage ∨ k'.stage = .leaving ∨
      ∃ c, k'.stage = .renewing c ∧ ns.vouches c = true ∧ k.sameIdentity c = true) :
    Advances k id ns k' none
  | heartbeat {inbox : List ControlMsg} {pending : Option Heartbeat} {hb : Heartbeat} {p : Publishing}
    (stage : k.stage = .serving) :
    Advances k id ns ({ k with inbox, pending }.foldHeartbeat ns hb p).1
      (some (.heartbeat k.claims.nodeId k.claims.role hb p))
  | exitReadiness {inbox : List ControlMsg} {er : ExitReadiness} {p : Publishing}
    (stage : k.stage = .serving) (role : k.claims.role = .relay) :
    Advances k id ns { k with inbox, reports := er :: k.reports }
      (some (.exitReadiness k.claims.nodeId er p))
  | resync {inbox : List ControlMsg} {haveGen now : Nat} (stage : k.stage = .serving) :
    Advances k id ns { k with inbox } (some (.resync k.claims.nodeId haveGen now))
  | renew {c : Claims} {nowMs : Nat} (stage : k.stage = .renewing c) :
    Advances k id ns { k with stage := .serving } (some (.refresh k.claims.nodeId c.exp c.loginGen nowMs))
  | finish {p : Publishing} (stage : k.stage = .serving ∨ k.stage = .leaving) :
    Advances k id ns { k with stage := .ended } (some (.teardown k.claims.nodeId id p))

theorem advances_of_advance {k k' : Conn} {id : Nat} {ns : NetState} {e : ConnEvent}
    {op : Option LockedOp} (h : k.advance id ns e = some (k', op)) : k.Advances id ns k' op := by
  cases e with
  | register haveGen p =>
    simp only [advance] at h
    split at h <;> cases h
    rename_i hstage
    exact .register hstage
  | arrive m =>
    simp only [advance] at h
    split at h
    · cases h
    · cases h
    · rename_i hverified hended
      cases h
      exact .quiet hverified rfl rfl rfl (.inl rfl)
  | handle token p =>
    simp only [advance] at h
    split at h
    · rename_i m inbox hstage hinbox
      have hreg : k.stage ≠ .verified := by rw [hstage]; exact fun h => (nomatch h)
      cases m with
      | heartbeat hb =>
        simp only [receive] at h
        split_ifs at h
        · cases h
          exact .heartbeat hstage
        · cases h
          exact .quiet hreg rfl rfl rfl (.inl rfl)
      | exitReadiness er =>
        simp only [receive] at h
        split_ifs at h with hrole
        · cases h
          exact .exitReadiness hstage hrole
        · cases h
          exact .quiet hreg rfl rfl rfl (.inr (.inl rfl))
      | resync haveGen =>
        cases h
        exact .resync hstage
      | refresh c =>
        cases h
        refine .quiet hreg rfl rfl rfl (.inr ?_)
        split_ifs with hvouched
        · obtain ⟨hvouches, hsame⟩ := Bool.and_eq_true_iff.mp hvouched
          exact .inr ⟨c, rfl, hvouches, hsame⟩
        · exact .inl rfl
    · cases h
  | fire p =>
    simp only [advance] at h
    split at h <;> cases h
    rename_i hb hstage hpending
    exact .heartbeat hstage
  | renew nowMs =>
    simp only [advance] at h
    split at h <;> cases h
    rename_i c hstage
    exact .renew hstage
  | finish p =>
    simp only [advance] at h
    split at h
    · rename_i hstage
      cases h
      exact .finish (.inl hstage)
    · rename_i hstage
      cases h
      exact .finish (.inr hstage)
    · cases h

end Conn

/-- A network with the tasks of its control connections, by session id. -/
structure Control where
  net : NetState
  conns : Std.ExtTreeMap Nat Conn

inductive ControlEvent
  | outside (op : LockedOp)
  | hello (id : Nat) (c : Claims)
  | conn (id : Nat) (e : ConnEvent)

namespace Control

variable (env : CoordText)

def step (s : Control) : ControlEvent → Option Control
  | .outside op => if op.outside then some { s with net := s.net.perform env op } else none
  | .hello id c =>
    if s.conns[id]? = none ∧ s.net.vouches c then some { s with conns := s.conns.insert id (Conn.new c) }
    else none
  | .conn id e => do
    let k ← s.conns[id]?
    let (k', op) ← k.advance id s.net e
    return { net := op.elim s.net (s.net.perform env), conns := s.conns.insert id k' }

end Control

def controlSystem (env : CoordText) : TransitionSystem Control ControlEvent where
  Initial s := s.conns = ∅ ∧ ∃ cfg reg stored now nowMs startedAt,
    s.net = { NetState.new env.encode cfg reg stored now nowMs with startedAt }
  step := Control.step env

namespace Control

variable {env : CoordText}

theorem step_conn_eq_some {s s' : Control} {id : Nat} {e : ConnEvent} :
    s.step env (.conn id e) = some s' ↔ ∃ k k' op, s.conns[id]? = some k ∧
      k.advance id s.net e = some (k', op) ∧
      s' = { net := op.elim s.net (s.net.perform env), conns := s.conns.insert id k' } := by
  simp only [step, Option.bind_eq_bind, Option.bind_eq_some_iff, Prod.exists, Option.pure_def,
    Option.some.injEq]
  constructor
  · rintro ⟨k, hk, k', op, hadvance, rfl⟩
    exact ⟨k, k', op, hk, hadvance, rfl⟩
  · rintro ⟨k, k', op, hk, hadvance, rfl⟩
    exact ⟨k, hk, k', op, hadvance, rfl⟩

end Control

/-! ### A network of one relay, an internet exit -/

namespace ControlExample

def cfg : NetworkConfig :=
  ⟨"acme", [], SettingsCfg.default, (∅ : Std.ExtTreeMap String MemberCfg).insert "gw" MemberCfg.default, ∅⟩

/-- The relay joined in an earlier life of the coordinator, with the routes of an exit. -/
def record : MemberRecord :=
  { Registry.newRecord 1 "gw" .relay 0 with
    routes := (NetState.declaredRoutes { MemberCfg.default with internetGateway := some true } .relay).map
      fun c => ⟨c, 0⟩ }

def registry : Registry :=
  { Registry.new "u" with
    nextNodeId := 2
    members := (∅ : Std.ExtTreeMap NodeId MemberRecord).insert 1 record }

def start : Control := ⟨NetState.new (fun _ => []) cfg registry ⟨some cfg, some registry⟩ 0 0, ∅⟩

theorem start_initial : (controlSystem .byteText).Initial start :=
  ⟨rfl, cfg, registry, _, 0, 0, 0, rfl⟩

def claims : Claims :=
  ⟨issuer, audience, "acme", "u", 1, "gw", .relay, "", "", [], 0, 0, 1000⟩

def narrow : Heartbeat := ⟨0, 0, [], [], none, 1280, none⟩

def ready : ExitReadiness := ⟨true, true⟩

def atSecond (t : Nat) : Publishing := ⟨[], t, t * 1000, true⟩

end ControlExample

end Nqvpn
