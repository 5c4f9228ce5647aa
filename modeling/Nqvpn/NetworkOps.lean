import Nqvpn.AdminAtomicity
import Nqvpn.NetFrame

/-!
# Everything that happens to one network

The operations that run under a network's lock, as one type of events with their
readings of the clock and the outcomes of the database. Each is a change of the rows
or of what is known of members, then at most one publish, then pushes into queues.
-/

namespace Nqvpn

open Fallible DurableRows

namespace Leases

variable (l : Leases)

theorem isOnline_offline (node n : NodeId) :
    (l.offline node).isOnline n = (decide (node ≠ n) && l.isOnline n) := by
  simp only [isOnline, offline, Std.ExtTreeMap.contains_erase]
  by_cases hn : node = n <;> simp [hn]

theorem isOnline_foldl_offline (nodes : List NodeId) (l : Leases) (n : NodeId) :
    (nodes.foldl offline l).isOnline n = (decide (n ∉ nodes) && l.isOnline n) := by
  induction nodes generalizing l with
  | nil => simp
  | cons a nodes ih =>
    rw [List.foldl_cons, ih, isOnline_offline]
    by_cases hn : n = a
    · simp [hn]
    · have hn' : a ≠ n := fun h => hn h.symm
      simp [hn, hn']

theorem isOnline_remove (node n : NodeId) :
    (l.remove node).isOnline n = (decide (node ≠ n) && l.isOnline n) :=
  isOnline_offline l node n

theorem isOnline_removeRelay (node n : NodeId) :
    (l.removeRelay node).isOnline n = (decide (node ≠ n) && l.isOnline n) :=
  isOnline_offline _ node n

end Leases

namespace NetState

/-- Sessions, liveness and facts of members may be gone; the books and the view are as
they were. -/
structure Trims (ns ns' : NetState) : Prop where
  cfg : ns'.cfg = ns.cfg
  registry : ns'.registry = ns.registry
  stored : ns'.stored = ns.stored
  startedAt : ns'.startedAt = ns.startedAt
  deleted : ns'.deleted = ns.deleted
  view : Directory.SameView ns.directory ns'.directory
  sessions : ∀ (n : NodeId) (s : Session), ns'.sessions[n]? = some s → ns.sessions[n]? = some s
  online : ∀ (n : NodeId) (s : Session), ns'.sessions[n]? = some s →
    ns.leases.isOnline n = true → ns'.leases.isOnline n = true
  reportedMtu : ∀ (n : NodeId) (m : Nat), ns'.directory.reportedMtu[n]? = some m →
    ns.directory.reportedMtu[n]? = some m
  exitReadiness : ∀ (n : NodeId) (er : ExitReadiness), ns'.directory.exitReadiness[n]? = some er →
    ns.directory.exitReadiness[n]? = some er

namespace Trims

variable {ns ns' ns'' : NetState}

theorem refl (ns : NetState) : ns.Trims ns :=
  ⟨rfl, rfl, rfl, rfl, rfl, ⟨rfl, rfl, rfl, rfl⟩, fun _ _ h => h, fun _ _ _ h => h, fun _ _ h => h,
    fun _ _ h => h⟩

theorem trans (h : ns.Trims ns') (h' : ns'.Trims ns'') : ns.Trims ns'' where
  cfg := h'.cfg.trans h.cfg
  registry := h'.registry.trans h.registry
  stored := h'.stored.trans h.stored
  startedAt := h'.startedAt.trans h.startedAt
  deleted := h'.deleted.trans h.deleted
  view := ⟨h'.view.gen.trans h.view.gen, h'.view.published.trans h.view.published,
    h'.view.publishedDigest.trans h.view.publishedDigest, h'.view.ring.trans h.view.ring⟩
  sessions n s hs := h.sessions n s (h'.sessions n s hs)
  online n s hs hon := h'.online n s hs (h.online n s (h'.sessions n s hs) hon)
  reportedMtu n m hm := h.reportedMtu n m (h'.reportedMtu n m hm)
  exitReadiness n er her := h.exitReadiness n er (h'.exitReadiness n er her)

end Trims

/-! ### Closing sessions trims -/

theorem getElem?_erase_imp {β : Type} {m : Std.ExtTreeMap NodeId β} {node n : NodeId} {b : β}
    (h : (m.erase node)[n]? = some b) : m[n]? = some b := by
  rw [Std.ExtTreeMap.getElem?_erase] at h
  split_ifs at h
  exact h

variable (ns : NetState) (node : NodeId)

theorem dropSession_trims (finish : Session → Session) :
    ns.Trims (ns.dropSession node finish) := by
  rw [dropSession_eq]
  exact { Trims.refl ns with
    sessions := fun n s hs => getElem?_erase_imp hs, online := fun _ _ _ h => h }

theorem foldl_drop_trims {α : Type} (node : α → NodeId) (finish : α → Session → Session) (l : List α)
    (ns : NetState) : ns.Trims (l.foldl (fun ns a => ns.dropSession (node a) (finish a)) ns) := by
  induction l generalizing ns with
  | nil => exact Trims.refl ns
  | cons a l ih => exact (ns.dropSession_trims (node a) (finish a)).trans (ih _)

theorem reconfigureAll_trims (why : String) : ns.Trims (ns.reconfigureAll why) :=
  foldl_drop_trims id (fun _ s => s.shut why closeReconfigured why) _ ns

theorem reconfigureNamed_trims (names : List String) (why : String) :
    ns.Trims (ns.reconfigureNamed names why) := by
  unfold reconfigureNamed
  induction names generalizing ns with
  | nil => exact Trims.refl ns
  | cons name names ih =>
    rw [List.foldl_cons]
    refine Trims.trans ?_ (ih _)
    cases ns.registry.idOf name with
    | none => exact Trims.refl ns
    | some node => exact dropSession_trims ns node _

theorem foldl_closeSession_trims (l : List (NodeId × String)) :
    ns.Trims (l.foldl (fun ns x => ns.closeSession x.1 x.2) ns) :=
  foldl_drop_trims Prod.fst (fun x s => s.shut x.2 closeEvicted x.2) l ns

theorem trims_of_gone {ns : NetState} {node : NodeId} {leases : Leases} {directory : Directory}
    {retired : List Session}
    (honline : ∀ n, n ≠ node → ns.leases.isOnline n → leases.isOnline n)
    (hview : Directory.SameView ns.directory directory)
    (hmtu : ∀ (n : NodeId) (m : Nat), directory.reportedMtu[n]? = some m →
      ns.directory.reportedMtu[n]? = some m)
    (hready : ∀ (n : NodeId) (er : ExitReadiness), directory.exitReadiness[n]? = some er →
      ns.directory.exitReadiness[n]? = some er) :
    ns.Trims { ns with sessions := ns.sessions.erase node, retired, leases, directory } := by
  refine ⟨rfl, rfl, rfl, rfl, rfl, hview, fun n s hs => getElem?_erase_imp hs, fun n s hs hon => ?_,
    hmtu, hready⟩
  refine honline n (fun hn => ?_) hon
  rw [hn, Std.ExtTreeMap.getElem?_erase_self] at hs
  cases hs

theorem forget_trims (reason : String) :
    ns.Trims ((ns.closeSession node reason).forget node) := by
  simp only [forget, closeSession, closeSessionWith, dropSession_eq]
  refine trims_of_gone (fun n hn hon => ?_) ⟨rfl, rfl, rfl, rfl⟩ (fun n m hm => getElem?_erase_imp hm)
    fun n er her => her
  rw [Leases.isOnline_removeRelay]
  simpa [Ne.symm hn] using hon

theorem evict_trims (role : Role) : ns.Trims (ns.evict node role) := by
  simp only [evict, closeSession, closeSessionWith, dropSession_eq]
  refine trims_of_gone (fun n hn hon => ?_) ⟨rfl, rfl, rfl, rfl⟩ (fun _ _ h => h) fun _ _ h => h
  split_ifs
  · rw [Leases.isOnline_removeRelay]
    simpa [Ne.symm hn] using hon
  · rw [Leases.isOnline_remove]
    simpa [Ne.symm hn] using hon

theorem closeStale_trims (plan : JoinPlan) (name peerIp : String) :
    ns.Trims (ns.closeStale plan name peerIp) := by
  unfold closeStale
  split_ifs
  · exact dropSession_trims ns _ _
  · exact Trims.refl ns

theorem swept_trims (now nowMs : Nat) :
    ns.Trims (((ns.silenced now nowMs).expiredAt now).foldl sweepExpired (ns.silenced now nowMs)) := by
  refine Trims.trans ?_ (foldl_drop_trims id
    (fun _ s => s.shut "credential expired" closeExpired "credential expired") _ _)
  obtain ⟨retired, h⟩ := ns.silenced_eq now nowMs
  rw [h]
  refine ⟨rfl, rfl, rfl, rfl, rfl, ⟨rfl, rfl, rfl, rfl⟩, fun n s hs => ?_, fun n s hs hon => ?_,
    fun n m hm => ?_, fun _ _ h => h⟩
  · simp only [getElem?_without] at hs
    split_ifs at hs
    exact hs
  · simp only [getElem?_without] at hs
    split_ifs at hs with hn
    simpa only [Leases.isOnline_foldl_offline, hn, not_false_eq_true, decide_true, Bool.true_and]
      using hon
  · simp only [getElem?_without] at hm
    split_ifs at hm
    exact hm

/-- The network without the session of `node`, and without what is known of it. -/
def tornDown (retired : List Session) : NetState :=
  { ns with
    sessions := ns.sessions.erase node
    retired
    leases := ns.leases.offline node
    directory := { ns.directory with
      reportedMtu := ns.directory.reportedMtu.erase node
      exitReadiness := ns.directory.exitReadiness.erase node } }

theorem teardown_cases (text : IpNetText) (encode : Snapshot → List UInt8) (ns : NetState)
    (node : NodeId) (id : Nat) (keys : List KeyInfo) (now nowMs : Nat) (saveOk : Bool) :
    ns.teardown text encode node id keys now nowMs saveOk = ns ∨
      ∃ retired, ns.teardown text encode node id keys now nowMs saveOk =
        (ns.tornDown node retired).publish text encode keys now nowMs saveOk := by
  unfold teardown
  split_ifs
  · refine .inr ⟨((ns.sessions[node]?).map fun s => s).toList ++ ns.retired, ?_⟩
    simp only [dropSession_eq]
    rfl
  · exact .inl rfl

theorem teardown_trims (node : NodeId) (retired : List Session) : ns.Trims (ns.tornDown node retired) := by
  refine trims_of_gone (fun n hn hon => ?_) ⟨rfl, rfl, rfl, rfl⟩ (fun n m hm => getElem?_erase_imp hm)
    fun n er her => getElem?_erase_imp her
  rw [Leases.isOnline_offline]
  simpa [Ne.symm hn] using hon

/-! ### Operators -/

section Operators

variable (env : CoordText) (keys : List KeyInfo) (r : AdminReading)
variable (ns : NetState)

theorem hold_trims (secs : Nat) :
    ns.Trims { ns with directory := { ns.directory with holdDownSecs := secs } } :=
  { Trims.refl ns with view := ⟨rfl, rfl, rfl, rfl⟩ }

theorem finish_cases (done : NetState) (op : NetworkOp) :
    ns.finish env keys r done op = done ∨
      ∃ base, done.Trims base ∧ ns.finish env keys r done op = base.publishNow env keys r := by
  cases op with
  | updateNetwork spec =>
    refine .inr ⟨_, ?_, rfl⟩
    split_ifs
    · exact (done.hold_trims _).trans (reconfigureAll_trims _ _)
    · exact done.hold_trims _
  | createMember name role spec secret => exact .inl rfl
  | updateMember name spec => exact .inr ⟨_, reconfigureNamed_trims _ _ _, rfl⟩
  | rotateMember name secret =>
    simp only [finish]
    split
    · exact .inr ⟨_, dropSession_trims _ _ _, rfl⟩
    · exact .inl rfl
  | deleteMember name =>
    simp only [finish]
    split
    · exact .inr ⟨_, forget_trims _ _ _, rfl⟩
    · exact .inr ⟨_, Trims.refl done, rfl⟩
  | setDisabled name disabled =>
    simp only [finish]
    split
    · refine .inr ⟨_, ?_, rfl⟩
      split_ifs
      · exact evict_trims _ _ _
      · exact Trims.refl done
    · exact .inl rfl

theorem exec_eq_ok {ns : NetState} {op : NetworkOp} (h : (ns.exec env keys r op).2 = .ok ()) :
    ∃ e, ns.proposal env r op = .ok e ∧ (ns.exec env keys r op).1 =
      ns.finish env keys r (ns.withRows ⟨e.fst.getD ns.cfg, e.snd.getD ns.registry,
        e.fst.or ns.stored.config, e.snd.or ns.stored.registry⟩) op := by
  rcases @exec_ends env keys r ns op with ⟨err, -, hexec⟩ | ⟨e, he, ⟨hok, hexec⟩ | ⟨-, err, hexec⟩⟩
  · rw [hexec] at h
    cases h
  · refine ⟨e, he, ?_⟩
    have hrows : (ns.written r e).1 = _ := Rows.write_ok hok
    rw [hexec, hrows]
    rfl
  · rw [hexec] at h
    cases h

def importNetwork (cfg : NetworkConfig) : NetState × Except ApiError Unit :=
  match (do
      let cfg ← (validateNetworkWith env r.resolve cfg).mapError ApiError.badRequest
      validateAssignments env cfg ns.registry
      ensure (r.db.config = true) (ApiError.internal "saving imported configuration")
      return cfg) with
  | .error e => (ns, .error e)
  | .ok cfg => (ns.applyImport env keys r cfg
      (importedRegistry (some ns.cfg) cfg ns.registry r.clock.now), .ok ())

theorem applyImport_cases (cfg : NetworkConfig) (reg : Registry) :
    ∃ base, Trims { ns with cfg, registry := reg, stored := ⟨some cfg, some reg⟩ } base ∧
      ns.applyImport env keys r cfg reg = base.publishNow env keys r := by
  refine ⟨_, ?_, rfl⟩
  refine ((hold_trims _ cfg.settings.holdDownSecs).trans (foldl_closeSession_trims _
    (ns.importRetires cfg reg))).trans ?_
  split_ifs
  · exact reconfigureAll_trims _ _
  · exact reconfigureNamed_trims _ _ _

end Operators

end NetState

/-! ### The operations as events -/

/-- What a publish reads, and whether the generation mark is saved. -/
structure Publishing where
  keys : List KeyInfo
  now : Nat
  nowMs : Nat
  saveOk : Bool

/-- What runs under a network's lock. -/
inductive LockedOp
  | join (name presented : String) (req : JoinRequest) (peerIp : String) (signing : Signing)
    (t : Clock) (db : DbOutcome)
  | register (s : Session) (haveGen : Nat) (p : Publishing)
  | teardown (node : NodeId) (id : Nat) (p : Publishing)
  | heartbeat (node : NodeId) (role : Role) (hb : Heartbeat) (p : Publishing)
  | exitReadiness (node : NodeId) (er : ExitReadiness) (p : Publishing)
  | resync (node : NodeId) (haveGen now : Nat)
  | refresh (node : NodeId) (exp loginGen nowMs : Nat)
  | sweep (p : Publishing)
  | flush (p : Publishing)
  | admin (keys : List KeyInfo) (r : AdminReading) (op : NetworkOp)
  | importConfig (keys : List KeyInfo) (r : AdminReading) (cfg : NetworkConfig)

namespace LockedOp

def markSaved : LockedOp → Bool
  | .join _ _ _ _ _ _ db => db.mark
  | .register _ _ p | .teardown _ _ p | .heartbeat _ _ _ p | .exitReadiness _ _ p | .sweep p
  | .flush p => p.saveOk
  | .resync _ _ _ | .refresh _ _ _ _ => true
  | .admin _ r _ | .importConfig _ r _ => r.db.mark

def nowMs : LockedOp → Nat
  | .join _ _ _ _ _ t _ => t.nowMs
  | .register _ _ p | .teardown _ _ p | .heartbeat _ _ _ p | .exitReadiness _ _ p | .sweep p
  | .flush p => p.nowMs
  | .resync _ _ _ | .refresh _ _ _ _ => 0
  | .admin _ r _ | .importConfig _ r _ => r.clock.nowMs

def outside : LockedOp → Bool
  | .join _ _ _ _ _ _ _ | .sweep _ | .flush _ | .admin _ _ _ | .importConfig _ _ _ => true
  | _ => false

end LockedOp

namespace NetState

variable (env : CoordText)

def perform (ns : NetState) : LockedOp → NetState
  | .join name presented req peerIp signing t db =>
    (ns.join env name presented req peerIp signing t db).1
  | .register s haveGen p => ns.register env.net env.encode s haveGen p.keys p.now p.nowMs p.saveOk
  | .teardown node id p => ns.teardown env.net env.encode node id p.keys p.now p.nowMs p.saveOk
  | .heartbeat node role hb p =>
    ns.onHeartbeat env.net env.encode node role hb p.keys p.now p.nowMs p.saveOk
  | .exitReadiness node er p =>
    ns.onExitReadiness env.net env.encode node er p.keys p.now p.nowMs p.saveOk
  | .resync node haveGen now => ns.onResync node haveGen now
  | .refresh node exp loginGen nowMs => ns.applyRefresh node exp loginGen nowMs
  | .sweep p => ns.sweep env.net env.encode p.keys p.now p.nowMs p.saveOk
  | .flush p => ns.flush env.net env.encode p.keys p.now p.nowMs p.saveOk
  | .admin keys r op => (ns.exec env keys r op).1
  | .importConfig keys r cfg => (ns.importNetwork env keys r cfg).1

/-! ### What they have in common -/

/-- How the rows come out of an operation that no control connection makes. -/
inductive Writes (ns : NetState) : LockedOp → Rows NetworkConfig Registry → Prop
  | same (op : LockedOp) : Writes ns op ns.rows
  | join {name presented : String} {req : JoinRequest} {peerIp : String} {signing : Signing} {t : Clock}
    {db : DbOutcome} {plan : JoinPlan} (planned : ns.joinPlan env name presented req peerIp t = .ok plan) :
    Writes ns (.join name presented req peerIp signing t db)
      ({ ns.rows with snd := plan.registry }.commit db.registry db.reload).1
  | admin {keys : List KeyInfo} {r : AdminReading} {op : NetworkOp} {e : Edit NetworkConfig Registry}
    (proposed : ns.proposal env r op = .ok e) : Writes ns (.admin keys r op) (ns.written r e).1
  | importConfig {keys : List KeyInfo} {r : AdminReading} {cfg cfg' : NetworkConfig}
    (validated : validateNetworkWith env r.resolve cfg = .ok cfg')
    (assigned : validateAssignments env cfg' ns.registry = .ok ()) :
    Writes ns (.importConfig keys r cfg)
      ⟨cfg', importedRegistry (some ns.cfg) cfg' ns.registry r.clock.now, some cfg',
        some (importedRegistry (some ns.cfg) cfg' ns.registry r.clock.now)⟩

theorem perform_outside (ns : NetState) (op : LockedOp) (hop : op.outside) :
    ∃ rows base, ns.Writes env op rows ∧ (ns.withRows rows).Trims base ∧
      (ns.perform env op = ns.withRows rows ∨
        ∃ keys now nowMs saveOk, ns.perform env op = base.publish env.net env.encode keys now nowMs saveOk) := by
  cases op with
  | join name presented req peerIp signing t db =>
    cases hplan : ns.joinPlan env name presented req peerIp t with
    | error err =>
      exact ⟨ns.rows, ns, .same _, Trims.refl ns, .inl (by simp only [perform, NetState.join, hplan]; rfl)⟩
    | ok plan =>
      have hcommit := commit_eq ns plan.registry db.registry db.reload
      refine ⟨_, _, .join hplan, closeStale_trims _ plan name peerIp, ?_⟩
      cases hok : ({ ns.rows with snd := plan.registry }.commit db.registry db.reload).2 with
      | true =>
        refine .inr ⟨signing.keys, t.now, t.nowMs, db.mark, ?_⟩
        simp [perform, NetState.join, hplan, hcommit, hok]
      | false => exact .inl (by simp only [perform, NetState.join, hplan, hcommit, hok]; rfl)
  | sweep p => exact ⟨ns.rows, _, .same _, swept_trims ns p.now p.nowMs, .inr ⟨_, _, _, _, rfl⟩⟩
  | flush p =>
    have hcleared : ns.Trims { ns with flushScheduled := false } := { Trims.refl ns with }
    exact ⟨ns.rows, _, .same _, hcleared, .inr ⟨_, _, _, _, rfl⟩⟩
  | admin keys r op =>
    rcases @exec_ends env keys r ns op with ⟨err, -, hexec⟩ | ⟨e, he, hends⟩
    · exact ⟨ns.rows, ns, .same _, Trims.refl ns, .inl (by rw [perform, hexec]; rfl)⟩
    · rcases hends with ⟨-, hexec⟩ | ⟨-, err, hexec⟩
      · rcases finish_cases env keys r ns (ns.withRows (ns.written r e).1) op with
          hdone | ⟨base, htrims, hdone⟩
        · exact ⟨_, _, .admin he, Trims.refl _, .inl (by rw [perform, hexec, hdone])⟩
        · refine ⟨_, base, .admin he, htrims, .inr ⟨keys, r.clock.now, r.clock.nowMs, r.db.mark, ?_⟩⟩
          rw [perform, hexec, hdone]
          rfl
      · exact ⟨_, _, .admin he, Trims.refl _, .inl (by rw [perform, hexec])⟩
  | importConfig keys r cfg =>
    simp only [perform, importNetwork]
    split
    · exact ⟨ns.rows, ns, .same _, Trims.refl ns, .inl rfl⟩
    · rename_i cfg' hcfg
      simp only [bind_eq_ok, mapError_eq_ok, pure_eq_ok] at hcfg
      obtain ⟨cfg'', hvalid, ⟨⟩, hassigned, ⟨⟩, -, rfl⟩ := hcfg
      obtain ⟨base, htrims, happly⟩ := applyImport_cases env keys r ns cfg''
        (importedRegistry (some ns.cfg) cfg'' ns.registry r.clock.now)
      exact ⟨_, base, .importConfig hvalid hassigned, htrims,
        .inr ⟨keys, r.clock.now, r.clock.nowMs, r.db.mark, happly⟩⟩
  | register | teardown | heartbeat | exitReadiness | resync | refresh => cases hop

/-- With the books and the view as they were, an operation publishes at most once, and pushes into
queues. -/
inductive Handles (ns : NetState) (nowMs : Nat) (saved : Bool) (ns' : NetState) : Prop
  | quiet {base : NetState} (delivers : base.Delivers ns') (rows : base.rows = ns.rows)
    (view : ns.directory.SameView base.directory)
    (ids : ∀ n : NodeId, (base.sessions[n]?).map Session.id = (ns.sessions[n]?).map Session.id)
  | publishes {base : NetState} {keys : List KeyInfo} {now : Nat}
    (delivers : (base.publish env.net env.encode keys now nowMs saved).Delivers ns')
    (rows : base.rows = ns.rows) (view : ns.directory.SameView base.directory)

variable {env} in
theorem Handles.soon {ns ns' base : NetState} {keys : List KeyInfo} {now nowMs : Nat} {saved : Bool}
    (hd : (base.publishSoon env.net env.encode keys now nowMs saved).1.Delivers ns')
    (hrows : base.rows = ns.rows) (hview : ns.directory.SameView base.directory)
    (hids : ∀ n : NodeId, (base.sessions[n]?).map Session.id = (ns.sessions[n]?).map Session.id) :
    ns.Handles env nowMs saved ns' := by
  unfold publishSoon at hd
  simp only at hd
  split_ifs at hd
  · exact .publishes hd hrows hview
  · exact .quiet hd hrows hview hids
  · exact .quiet hd hrows hview hids

theorem perform_inside (ns : NetState) (op : LockedOp) (hop : op.outside = false) :
    ns.Handles env op.nowMs op.markSaved (ns.perform env op) := by
  cases op with
  | join | sweep | flush | admin | importConfig => cases hop
  | register s haveGen p =>
    obtain ⟨retired, hdelivers⟩ :=
      register_cases env.net env.encode ns s haveGen p.keys p.now p.nowMs p.saveOk
    exact .publishes hdelivers rfl ⟨rfl, rfl, rfl, rfl⟩
  | teardown node id p =>
    rcases teardown_cases env.net env.encode ns node id p.keys p.now p.nowMs p.saveOk with
      hsame | ⟨retired, hpublish⟩
    · rw [perform, hsame]
      exact .quiet (.refl ns) rfl ⟨rfl, rfl, rfl, rfl⟩ fun _ => rfl
    · rw [perform, hpublish]
      exact .publishes (.refl _) rfl ⟨rfl, rfl, rfl, rfl⟩
  | heartbeat node role hb p =>
    have hview := foldHeartbeat_sameView ns node role hb p.now p.nowMs
    have hd := answerHeartbeat_delivers p.now (if (ns.foldHeartbeat node role hb p.now p.nowMs).2 then
      ((ns.foldHeartbeat node role hb p.now p.nowMs).1.publishSoon env.net env.encode p.keys p.now p.nowMs
        p.saveOk).1 else (ns.foldHeartbeat node role hb p.now p.nowMs).1) node hb
    unfold perform onHeartbeat
    dsimp only
    split_ifs at hd ⊢
    · exact .soon hd rfl hview fun _ => rfl
    · exact .quiet hd rfl hview fun _ => rfl
  | exitReadiness node er p =>
    simp only [perform, onExitReadiness]
    split_ifs
    · exact .soon (.refl _) rfl ⟨rfl, rfl, rfl, rfl⟩ fun _ => rfl
    · exact .quiet (.refl _) rfl ⟨rfl, rfl, rfl, rfl⟩ fun _ => rfl
  | resync node haveGen now =>
    exact .quiet (onResync_delivers now ns node haveGen) rfl ⟨rfl, rfl, rfl, rfl⟩ fun _ => rfl
  | refresh node exp loginGen nowMs =>
    refine .quiet (.refl _) rfl ⟨rfl, rfl, rfl, rfl⟩ fun n => ?_
    simp only [perform, applyRefresh, Std.ExtTreeMap.getElem?_alter]
    split_ifs with hn
    · rw [compare_eq_iff_eq.mp hn, Option.map_map]
      rfl
    · rfl

end NetState

end Nqvpn
