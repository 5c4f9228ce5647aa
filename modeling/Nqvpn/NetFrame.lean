import Nqvpn.Admin

/-!
# What each operation under the network lock leaves alone

Publishing, catching sessions up and closing them touch the view, its generation
mark and the queues, but neither the configuration, nor who is a member, nor the
leases, nor what a registered session says it is. Each operation is described here
as a change written out, followed by republishing.
-/

namespace Nqvpn

open Std.ExtTreeMap

def without {β : Type} (m : Std.ExtTreeMap NodeId β) (l : List NodeId) : Std.ExtTreeMap NodeId β :=
  m.filter fun n _ => n ∉ l

@[simp] theorem getElem?_without {β : Type} (m : Std.ExtTreeMap NodeId β) (l : List NodeId)
    (n : NodeId) : (without m l)[n]? = if n ∈ l then none else m[n]? := by
  rw [without, getElem?_filter']
  cases m[n]? <;> by_cases hn : n ∈ l <;> simp [hn]

theorem without_nil {β : Type} (m : Std.ExtTreeMap NodeId β) : without m [] = m := by
  apply ext_getElem?
  intro n
  rw [getElem?_without, if_neg List.not_mem_nil]

theorem without_cons {β : Type} (m : Std.ExtTreeMap NodeId β) (a : NodeId) (l : List NodeId) :
    without m (a :: l) = without (m.erase a) l := by
  apply ext_getElem?
  intro n
  simp only [getElem?_without, getElem?_erase, compare_eq_iff_eq, List.mem_cons]
  by_cases hn : n = a
  · subst hn
    simp
  · have hn' : a ≠ n := fun h => hn h.symm
    simp [hn, hn']

/-- What a registered session stands for, apart from its queue. -/
structure Session.Ident where
  id : Nat
  nodeId : NodeId
  role : Role
  exp : Nat
  loginGen : Nat
deriving DecidableEq

namespace Session

def ident (s : Session) : Ident := ⟨s.id, s.nodeId, s.role, s.exp, s.loginGen⟩

theorem ident_catchUp (s : Session) (ps : List Push) : (s.catchUp ps).ident = s.ident := by
  unfold catchUp
  split <;> rfl

theorem ident_pushDelta (s : Session) (d : Delta) : (s.pushDelta d).ident = s.ident := by
  unfold pushDelta
  split_ifs
  · rfl
  · split <;> rfl

end Session

/-- What members reported about themselves, kept by node. -/
structure Directory.SameFacts (d d' : Directory) : Prop where
  holdDownSecs : d'.holdDownSecs = d.holdDownSecs
  reportedMtu : d'.reportedMtu = d.reportedMtu
  traffic : d'.traffic = d.traffic
  exitReadiness : d'.exitReadiness = d.exitReadiness

theorem Directory.recompute_sameFacts {text : IpNetText} {encode : Snapshot → List UInt8}
    {d d' : Directory} {cfg : NetworkConfig} {reg : Registry} {leases : Leases} {keys : List KeyInfo}
    {now nowMs : Nat} {o : Option Delta}
    (h : d.recompute text encode cfg reg leases keys now nowMs = (d', o)) : d.SameFacts d' := by
  simp only [recompute] at h
  split_ifs at h <;> cases h <;> exact ⟨rfl, rfl, rfl, rfl⟩

namespace NetState

/-- Only the view, its generation mark and the queues may differ. -/
structure Republishes (ns ns' : NetState) : Prop where
  cfg : ns'.cfg = ns.cfg
  registry : ∃ hwm, ns'.registry = { ns.registry with genHwm := hwm }
  leases : ns'.leases = ns.leases
  idents : ∀ n : NodeId, (ns'.sessions[n]?).map Session.ident = (ns.sessions[n]?).map Session.ident
  facts : ns.directory.SameFacts ns'.directory
  storedConfig : ns'.stored.config = ns.stored.config
  storedRegistry : ∀ reg', ns'.stored.registry = some reg' → ns.stored.registry = some reg' ∨
    ∃ hwm, reg' = { ns.registry with genHwm := hwm }
  startedAt : ns'.startedAt = ns.startedAt
  deleted : ns'.deleted = ns.deleted

namespace Republishes

variable {ns ns' ns'' : NetState}

theorem refl (ns : NetState) : ns.Republishes ns :=
  ⟨rfl, ⟨_, rfl⟩, rfl, fun _ => rfl, ⟨rfl, rfl, rfl, rfl⟩, rfl, fun _ h => .inl h, rfl, rfl⟩

theorem trans (h : ns.Republishes ns') (h' : ns'.Republishes ns'') : ns.Republishes ns'' := by
  obtain ⟨hwm, hreg⟩ := h.registry
  obtain ⟨hwm', hreg'⟩ := h'.registry
  refine ⟨h'.cfg.trans h.cfg, ⟨hwm', by rw [hreg', hreg]⟩, h'.leases.trans h.leases,
    fun n => (h'.idents n).trans (h.idents n), ?_, h'.storedConfig.trans h.storedConfig, ?_,
    h'.startedAt.trans h.startedAt, h'.deleted.trans h.deleted⟩
  · exact ⟨h'.facts.holdDownSecs.trans h.facts.holdDownSecs,
      h'.facts.reportedMtu.trans h.facts.reportedMtu, h'.facts.traffic.trans h.facts.traffic,
      h'.facts.exitReadiness.trans h.facts.exitReadiness⟩
  · intro reg' hstored
    rcases h'.storedRegistry reg' hstored with hold | ⟨m, rfl⟩
    · exact h.storedRegistry reg' hold
    · exact .inr ⟨m, by rw [hreg]⟩

theorem members (h : ns.Republishes ns') : ns'.registry.members = ns.registry.members := by
  obtain ⟨hwm, hreg⟩ := h.registry
  rw [hreg]

theorem session (h : ns.Republishes ns') {n : NodeId} {s' : Session} (hs : ns'.sessions[n]? = some s') :
    ∃ s, ns.sessions[n]? = some s ∧ s.ident = s'.ident := by
  have hident := h.idents n
  rw [hs, Option.map_some] at hident
  obtain ⟨s, hs, he⟩ := Option.map_eq_some_iff.mp hident.symm
  exact ⟨s, hs, he⟩

end Republishes

/-- Only what the queues of registered sessions hold may differ. -/
structure Delivers (ns ns' : NetState) : Prop where
  rest : ns' = { ns with sessions := ns'.sessions }
  idents : ∀ n : NodeId, (ns'.sessions[n]?).map Session.ident = (ns.sessions[n]?).map Session.ident

theorem Delivers.refl (ns : NetState) : ns.Delivers ns := ⟨rfl, fun _ => rfl⟩

theorem Delivers.republishes {ns ns' : NetState} (h : ns.Delivers ns') : ns.Republishes ns' := by
  rw [h.rest]
  exact { Republishes.refl ns with idents := h.idents }

section Publish

variable (text : IpNetText) (encode : Snapshot → List UInt8) (keys : List KeyInfo)
  (now nowMs : Nat) (saveOk : Bool) (ns : NetState)

theorem broadcastDelta_republishes (d : Delta) :
    ns.Republishes (ns.broadcastDelta d) := by
  refine { Republishes.refl ns with idents := fun n => ?_ }
  simp only [broadcastDelta, getElem?_map, Option.map_map]
  congr 1
  funext s
  exact s.ident_pushDelta d

theorem noteGen_registry (reg : Registry) (gen : Nat) :
    ∃ hwm, (reg.noteGen gen).1 = { reg with genHwm := hwm } := by
  unfold Registry.noteGen
  split_ifs
  · exact ⟨_, rfl⟩
  · exact ⟨_, rfl⟩

theorem publish_directory : (ns.publish text encode keys now nowMs saveOk).directory =
    (ns.directory.recompute text encode ns.cfg ns.registry ns.leases keys now nowMs).1 := by
  unfold publish
  cases hr : ns.directory.recompute text encode ns.cfg ns.registry ns.leases keys now nowMs with
  | mk d o =>
    cases o with
    | none => simp only [hr]
    | some delta =>
      simp only [hr]
      rfl

theorem publish_republishes :
    ns.Republishes (ns.publish text encode keys now nowMs saveOk) := by
  unfold publish
  cases hr : ns.directory.recompute text encode ns.cfg ns.registry ns.leases keys now nowMs with
  | mk d o =>
    have hfacts := Directory.recompute_sameFacts hr
    cases o with
    | none =>
      simp only [hr]
      exact { Republishes.refl ns with facts := hfacts }
    | some delta =>
      simp only [hr]
      obtain ⟨hwm, hreg⟩ := noteGen_registry ns.registry d.gen
      refine Republishes.trans ?_ (broadcastDelta_republishes _ delta)
      refine ⟨rfl, ⟨hwm, hreg⟩, rfl, fun _ => rfl, hfacts, ?_, ?_, rfl, rfl⟩
      · split_ifs <;> rfl
      · intro reg' hstored
        split_ifs at hstored
        · exact .inr ⟨hwm, (Option.some.inj hstored).symm.trans hreg⟩
        · exact .inl hstored

theorem publishSoon_republishes :
    ns.Republishes (ns.publishSoon text encode keys now nowMs saveOk).1 := by
  unfold publishSoon
  simp only
  split_ifs
  · exact publish_republishes text encode keys now nowMs saveOk ns
  · exact Republishes.refl ns
  · exact { Republishes.refl ns with }

theorem flush_republishes :
    ns.Republishes (ns.flush text encode keys now nowMs saveOk) := by
  have hcleared : ns.Republishes { ns with flushScheduled := false } := { Republishes.refl ns with }
  exact hcleared.trans (publish_republishes text encode keys now nowMs saveOk _)

variable (node : NodeId)

theorem catchUp_delivers (haveGen : Nat) :
    ns.Delivers (ns.catchUp node haveGen) := by
  unfold catchUp
  cases hs : ns.sessions[node]? with
  | none => exact Delivers.refl ns
  | some s =>
    refine ⟨rfl, fun n => ?_⟩
    simp only [getElem?_insert, compare_eq_iff_eq]
    split_ifs with hn
    · subst hn
      rw [hs, Option.map_some, Option.map_some, s.ident_catchUp]
    · rfl

theorem answerHeartbeat_delivers (hb : Heartbeat) :
    ns.Delivers (ns.answerHeartbeat node hb now) := by
  unfold answerHeartbeat
  split_ifs
  · exact Delivers.refl ns
  · exact catchUp_delivers ns node hb.gen
  · exact catchUp_delivers ns node 0
  · exact Delivers.refl ns

theorem foldHeartbeat_reportedMtu (role : Role) (hb : Heartbeat) :
    (ns.foldHeartbeat node role hb now nowMs).1.directory.reportedMtu =
      if 0 < hb.usableMtu then
        ns.directory.reportedMtu.insert node (quantizeMtu hb.usableMtu ns.cfg.settings.mtu)
      else ns.directory.reportedMtu := by
  simp only [foldHeartbeat]
  split_ifs <;> cases role <;> cases hb.traffic <;> rfl

theorem foldHeartbeat_exitReadiness (role : Role) (hb : Heartbeat) :
    (ns.foldHeartbeat node role hb now nowMs).1.directory.exitReadiness = ns.directory.exitReadiness := by
  simp only [foldHeartbeat]
  split_ifs <;> cases role <;> cases hb.traffic <;> rfl

theorem onHeartbeat_republishes (role : Role) (hb : Heartbeat) :
    (ns.foldHeartbeat node role hb now nowMs).1.Republishes
      (ns.onHeartbeat text encode node role hb keys now nowMs saveOk) := by
  refine Republishes.trans ?_ (answerHeartbeat_delivers now _ node hb).republishes
  split_ifs
  · exact publishSoon_republishes text encode keys now nowMs saveOk _
  · exact Republishes.refl _

theorem onExitReadiness_republishes (er : ExitReadiness) :
    Republishes
      { ns with directory := { ns.directory with
        exitReadiness := ns.directory.exitReadiness.insert node er } }
      (ns.onExitReadiness text encode node er keys now nowMs saveOk) := by
  simp only [onExitReadiness]
  split_ifs
  · exact publishSoon_republishes text encode keys now nowMs saveOk _
  · exact Republishes.refl _

theorem onResync_delivers (haveGen : Nat) :
    ns.Delivers (ns.onResync node haveGen now) := by
  unfold onResync
  split_ifs
  · exact Delivers.refl ns
  · exact catchUp_delivers ns node haveGen

end Publish

theorem dropSession_eq (ns : NetState) (node : NodeId) (finish : Session → Session) :
    ns.dropSession node finish = { ns with
      sessions := ns.sessions.erase node
      retired := ((ns.sessions[node]?).map finish).toList ++ ns.retired } := by
  unfold dropSession
  cases hs : ns.sessions[node]? with
  | some s => rfl
  | none =>
    have herase : ns.sessions.erase node = ns.sessions := by
      apply ext_getElem?
      intro n
      rw [getElem?_erase]
      split_ifs with hn
      · rw [← compare_eq_iff_eq.mp hn, hs]
      · rfl
    simp [herase]

/-! ### Opening a session -/

variable (text : IpNetText) (encode : Snapshot → List UInt8)

theorem register_cases (ns : NetState)
    (s : Session) (haveGen : Nat) (keys : List KeyInfo) (now nowMs : Nat) (saveOk : Bool) :
    ∃ retired, Delivers
      ({ ns with
        sessions := ns.sessions.insert s.nodeId s
        leases := (ns.leases.seen s.nodeId nowMs).1
        retired }.publish text encode keys now nowMs saveOk)
      (ns.register text encode s haveGen keys now nowMs saveOk) := by
  have hinsert : (ns.sessions.erase s.nodeId).insert s.nodeId s = ns.sessions.insert s.nodeId s := by
    apply ext_getElem?
    intro n
    simp only [getElem?_insert, getElem?_erase, compare_eq_iff_eq]
    split_ifs <;> rfl
  refine ⟨((ns.sessions[s.nodeId]?).map id).toList ++ ns.retired, ?_⟩
  simp only [register, dropSession_eq, hinsert]
  split_ifs
  · exact Delivers.refl _
  · exact catchUp_delivers _ _ _

theorem register_republishes (ns : NetState)
    (s : Session) (haveGen : Nat) (keys : List KeyInfo) (now nowMs : Nat) (saveOk : Bool) :
    Republishes
      { ns with
        sessions := ns.sessions.insert s.nodeId s
        leases := (ns.leases.seen s.nodeId nowMs).1 }
      (ns.register text encode s haveGen keys now nowMs saveOk) := by
  obtain ⟨retired, h⟩ := register_cases text encode ns s haveGen keys now nowMs saveOk
  refine Republishes.trans ?_ ((publish_republishes text encode keys now nowMs saveOk _).trans
    h.republishes)
  exact { Republishes.refl _ with }

/-! ### Closing sessions -/

theorem foldl_drop_eq {α : Type} (node : α → NodeId) (finish : α → Session → Session) (l : List α)
    (ns : NetState) :
    ∃ retired, l.foldl (fun ns a => ns.dropSession (node a) (finish a)) ns =
      { ns with sessions := without ns.sessions (l.map node), retired } := by
  induction l generalizing ns with
  | nil => exact ⟨ns.retired, by rw [List.map_nil, without_nil, List.foldl_nil]⟩
  | cons a l ih =>
    obtain ⟨retired, h⟩ := ih (ns.dropSession (node a) (finish a))
    exact ⟨retired, by rw [List.foldl_cons, h, dropSession_eq, List.map_cons, without_cons]⟩

theorem foldl_sweepSilent_eq (l : List NodeId) (ns : NetState) :
    ∃ retired, l.foldl sweepSilent ns =
      { ns with
        directory := { ns.directory with reportedMtu := without ns.directory.reportedMtu l }
        sessions := without ns.sessions l
        retired } := by
  induction l generalizing ns with
  | nil => exact ⟨ns.retired, by rw [without_nil, without_nil, List.foldl_nil]⟩
  | cons a l ih =>
    obtain ⟨retired, h⟩ := ih (ns.sweepSilent a)
    refine ⟨retired, ?_⟩
    rw [List.foldl_cons, h, sweepSilent, closeSessionWith, dropSession_eq, without_cons, without_cons]

/-! ### The liveness sweep -/

def silentAt (ns : NetState) (nowMs : Nat) : List NodeId :=
  ns.leases.silent nowMs (ns.cfg.settings.livenessWindowSecs * 1000)

def silenced (ns : NetState) (now nowMs : Nat) : NetState :=
  (ns.silentAt nowMs).foldl sweepSilent { ns with
    directory := ns.directory.pruneTraffic now
    leases := (ns.silentAt nowMs).foldl Leases.offline ns.leases }

def expiredAt (ns : NetState) (now : Nat) : List NodeId :=
  ((ns.sessions.toList.map Prod.snd).filter (fun s => s.exp ≤ now)).map Session.nodeId

theorem sweep_eq (ns : NetState)
    (keys : List KeyInfo) (now nowMs : Nat) (saveOk : Bool) :
    ns.sweep text encode keys now nowMs saveOk =
      (((ns.silenced now nowMs).expiredAt now).foldl sweepExpired (ns.silenced now nowMs)).publish
        text encode keys now nowMs saveOk := rfl

theorem silenced_eq (ns : NetState) (now nowMs : Nat) :
    ∃ retired, ns.silenced now nowMs = { ns with
      directory := { ns.directory.pruneTraffic now with
        reportedMtu := without ns.directory.reportedMtu (ns.silentAt nowMs) }
      leases := (ns.silentAt nowMs).foldl Leases.offline ns.leases
      sessions := without ns.sessions (ns.silentAt nowMs)
      retired } :=
  foldl_sweepSilent_eq _ _

end NetState

end Nqvpn
