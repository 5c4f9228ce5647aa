import Nqvpn.GenerationHistory
import Nqvpn.RegistryBook

/-!
# A network from its creation on

The same processes as in the history of generations, seen as steps on the network
alone. An operation writes the rows; what follows it touches the generation mark, with
which the registry may be stored once more; a process that starts reads the rows back.
-/

namespace Nqvpn

open Fallible DurableRows

namespace NetState

/-- The rows are these, but for the generation mark, and unless they were stored again
with it. -/
structure Keeps (rows : Rows NetworkConfig Registry) (ns : NetState) : Prop where
  cfg : ns.cfg = rows.fst
  registry : ∃ hwm, ns.registry = { rows.snd with genHwm := hwm }
  storedConfig : ns.stored.config = rows.storedFst
  storedRegistry : ns.stored.registry = rows.storedSnd ∨ ns.stored.registry = some ns.registry

theorem Keeps.self (ns : NetState) : Keeps ns.rows ns := ⟨rfl, ⟨_, rfl⟩, rfl, .inl rfl⟩

theorem Keeps.of_rows_eq {rows : Rows NetworkConfig Registry} {ns ns' : NetState} (h : Keeps rows ns)
    (hrows : ns'.rows = ns.rows) : Keeps rows ns' := by
  obtain ⟨hcfg, hreg, hconfig, hregistry⟩ := DurableRows.Rows.mk.inj hrows
  refine ⟨hcfg.trans h.cfg, ?_, hconfig.trans h.storedConfig, ?_⟩
  · rw [hreg]
    exact h.registry
  · rw [hreg, hregistry]
    exact h.storedRegistry

theorem Trims.rows {ns ns' : NetState} (h : ns.Trims ns') : ns'.rows = ns.rows := by
  unfold NetState.rows
  rw [h.cfg, h.registry, h.stored]

theorem Delivers.rows {ns ns' : NetState} (h : ns.Delivers ns') : ns'.rows = ns.rows := by
  rw [h.rest]
  rfl

section Publish

variable {ns base : NetState} (h : base.rows = ns.rows) (text : IpNetText)
  (encode : Snapshot → List UInt8) (keys : List KeyInfo) (now nowMs : Nat) (saveOk : Bool)
include h

theorem publish_keeps : Keeps ns.rows (base.publish text encode keys now nowMs saveOk) := by
  rw [← h]
  unfold publish
  cases hr : base.directory.recompute text encode base.cfg base.registry base.leases keys now nowMs with
  | mk d o =>
    cases o with
    | none =>
      simp only [hr]
      exact ⟨rfl, ⟨_, rfl⟩, rfl, .inl rfl⟩
    | some delta =>
      simp only [hr]
      refine ⟨rfl, noteGen_registry base.registry d.gen, ?_, ?_⟩
      · split_ifs <;> rfl
      · split_ifs
        · exact .inr rfl
        · exact .inl rfl

end Publish

theorem join_keeps {env : CoordText} {ns : NetState} {name presented peerIp : String} {req : JoinRequest}
    {signing : Signing} {t : Clock} {db : DbOutcome} {c : Claims} {resp : JoinResponse}
    (h : (ns.join env name presented req peerIp signing t db).2 = .ok (c, resp)) :
    ∃ plan, ns.joinPlan env name presented req peerIp t = .ok plan ∧
      Keeps ⟨ns.cfg, plan.registry, ns.stored.config, some plan.registry⟩
        (ns.join env name presented req peerIp signing t db).1 ∧
      c = joinClaims env (ns.join env name presented req peerIp signing t db).1 plan name req t.now := by
  obtain ⟨plan, hplan, hdone, hclaims⟩ := join_eq_ok h
  refine ⟨plan, hplan, ?_, hclaims⟩
  rw [hdone]
  exact publish_keeps (closeStale_trims (ns.withRows
    ⟨ns.cfg, plan.registry, ns.stored.config, some plan.registry⟩) plan name peerIp).rows _ _ _ _ _ _

theorem outside_keeps (env : CoordText) (ns : NetState) (op : LockedOp) (hop : op.outside) :
    ∃ rows, ns.Writes env op rows ∧ Keeps rows (ns.perform env op) := by
  obtain ⟨rows, base, hwrites, htrims, hdone | ⟨keys, now, nowMs, saveOk, hdone⟩⟩ :=
    perform_outside env ns op hop
  · exact ⟨rows, hwrites, hdone ▸ Keeps.self (ns.withRows rows)⟩
  · exact ⟨rows, hwrites, hdone ▸ publish_keeps htrims.rows env.net env.encode keys now nowMs saveOk⟩

theorem perform_keeps (env : CoordText) (ns : NetState) (op : LockedOp) :
    ∃ rows, ns.Writes env op rows ∧ Keeps rows (ns.perform env op) := by
  cases hop : op.outside with
  | true => exact outside_keeps env ns op hop
  | false =>
    refine ⟨ns.rows, .same op, ?_⟩
    cases perform_inside env ns op hop with
    | quiet hdelivers hrows => exact (Keeps.self ns).of_rows_eq (hdelivers.rows.trans hrows)
    | publishes hdelivers hrows => exact (publish_keeps hrows _ _ _ _ _ _).of_rows_eq hdelivers.rows

end NetState

def LockedOp.joins : LockedOp → Option String
  | .join name _ _ _ _ _ _ => some name
  | _ => none

def HistoryEvent.op : HistoryEvent → Option LockedOp
  | .perform op => some op
  | .crash during _ _ _ => during

/-- An operation that returns: the search for a new member's id would otherwise go round
forever. -/
def LockedOp.Returns (ns : NetState) : LockedOp → Prop
  | .join name _ _ _ _ _ _ => ns.registry.idOf name = none → ns.registry.members.size < 2 ^ 32
  | _ => True

instance LockedOp.decidableReturns (ns : NetState) : (op : LockedOp) → Decidable (op.Returns ns)
  | .join name _ _ _ _ _ _ => by unfold LockedOp.Returns; infer_instance
  | .register _ _ _ | .teardown _ _ _ | .heartbeat _ _ _ _ | .exitReadiness _ _ _ | .resync _ _ _
  | .refresh _ _ _ _ | .sweep _ | .flush _ | .admin _ _ _ | .importConfig _ _ _ => isTrue trivial

namespace NetState

variable (env : CoordText)

def advance (ns : NetState) : HistoryEvent → Option NetState
  | .perform op => if op.Returns ns then some (ns.perform env op) else none
  | .crash during uuid now nowMs =>
    if ∀ op ∈ during, op.Returns ns then
      History.load env (during.elim ns (ns.perform env)).stored uuid now nowMs
    else none

/-- What is left once an operation, if any, is done. -/
inductive Leaves (ns : NetState) : Option LockedOp → NetState → Prop
  | nothing : Leaves ns none ns
  | done {op : LockedOp} {rows : Rows NetworkConfig Registry} (returns : op.Returns ns)
    (writes : ns.Writes env op rows) (keeps : Keeps rows (ns.perform env op)) :
    Leaves ns (some op) (ns.perform env op)

inductive Advances (ns : NetState) : HistoryEvent → NetState → Prop
  | perform {op : LockedOp} {ns' : NetState} (leaves : ns.Leaves env (some op) ns') :
    Advances ns (.perform op) ns'
  | crash {during : Option LockedOp} {uuid : String} {now nowMs : Nat} {ns' : NetState}
    {cfg : NetworkConfig} (leaves : ns.Leaves env during ns') (config : ns'.stored.config = some cfg) :
    Advances ns (.crash during uuid now nowMs)
      (NetState.new env.encode cfg (ns'.stored.registry.getD (Registry.new uuid)) ns'.stored now nowMs)

variable {env}

theorem leaves_perform {ns : NetState} {op : LockedOp} (h : op.Returns ns) :
    ns.Leaves env (some op) (ns.perform env op) := by
  obtain ⟨rows, hwrites, hkeeps⟩ := perform_keeps env ns op
  exact .done h hwrites hkeeps

theorem advance_eq_some {ns ns' : NetState} {e : HistoryEvent} (h : ns.advance env e = some ns') :
    ns.Advances env e ns' := by
  cases e with
  | perform op =>
    simp only [advance] at h
    split_ifs at h with hreturns
    cases h
    exact .perform (leaves_perform hreturns)
  | crash during uuid now nowMs =>
    simp only [advance] at h
    split_ifs at h with hreturns
    obtain ⟨cfg, hcfg, rfl⟩ := Option.map_eq_some_iff.mp h
    refine .crash ?_ hcfg
    cases during with
    | none => exact .nothing
    | some op => exact leaves_perform (hreturns op rfl)

end NetState

def networkSystem (env : CoordText) : TransitionSystem NetState HistoryEvent where
  Initial ns := ∃ r cfg uuid, ns = NetState.created env r cfg (Registry.new uuid)
  step := NetState.advance env

/-! ### A network with one address and two clients -/

namespace NetworkExample

def client (secret : String) : MemberCfg := { MemberCfg.default with secret := some secret }

def cfg : NetworkConfig where
  networkId := "acme"
  cidrs := [.v4 0x0a000001#32 ⟨32, Nat.lt_succ_self 32⟩]
  settings := SettingsCfg.default
  relays := ∅
  clients := ((∅ : Std.ExtTreeMap String MemberCfg).insert "ann" (client "a1")).insert "bob" (client "b1")

def reading (t : Nat) : AdminReading := ⟨fun _ _ => [], ⟨t, t, t * 1000⟩, ⟨true, true, true, true, true⟩⟩

def start : NetState := NetState.created .byteText (reading 0) cfg (Registry.new "u")

theorem start_initial : (networkSystem .byteText).Initial start := ⟨reading 0, cfg, "u", rfl⟩

def join (name secret key : String) (t : Nat) : LockedOp :=
  .join name secret ⟨secret, key, key⟩ "host" ⟨[], fun _ => [], 0⟩ (reading t).clock (reading t).db

end NetworkExample

end Nqvpn
