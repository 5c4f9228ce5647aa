import Nqvpn.ControlPlane
import Nqvpn.PublishedView

/-!
# Facts that outlive their session

The MTU a member reported and the readiness of an exit are kept by node. Some of the
ways in which a session ends clear them and some do not, and a connection whose session
is over still reports. The main result says what a run has to avoid so that the view
only ever rests on what was reported on the session that is registered.
-/

namespace Nqvpn

open Fallible DurableRows Std.ExtTreeMap Option

def LockedOp.reports : LockedOp → Bool
  | .heartbeat _ _ hb _ => 0 < hb.usableMtu
  | .exitReadiness _ _ _ => true
  | _ => false

namespace NetState

variable {env : CoordText} {ns ns' ns'' : NetState}

/-- No fact is on record that was not. -/
structure DropsFacts (ns ns' : NetState) : Prop where
  reportedMtu : ∀ (n : NodeId) (m : Nat), ns'.directory.reportedMtu[n]? = some m →
    ns.directory.reportedMtu[n]? = some m
  exitReadiness : ∀ (n : NodeId) (er : ExitReadiness), ns'.directory.exitReadiness[n]? = some er →
    ns.directory.exitReadiness[n]? = some er

theorem DropsFacts.trans (h : ns.DropsFacts ns') (h' : ns'.DropsFacts ns'') : ns.DropsFacts ns'' :=
  ⟨fun n m hm => h.reportedMtu n m (h'.reportedMtu n m hm),
    fun n er her => h.exitReadiness n er (h'.exitReadiness n er her)⟩

theorem Republishes.dropsFacts (h : ns.Republishes ns') : ns.DropsFacts ns' :=
  ⟨fun _ _ hm => h.facts.reportedMtu ▸ hm, fun _ _ her => h.facts.exitReadiness ▸ her⟩

theorem Trims.dropsFacts (h : ns.Trims ns') : ns.DropsFacts ns' := ⟨h.reportedMtu, h.exitReadiness⟩

theorem outside_dropsFacts (ns : NetState) (op : LockedOp) (hop : op.outside) :
    ns.DropsFacts (ns.perform env op) := by
  obtain ⟨rows, base, -, htrims, hdone | ⟨keys, now, nowMs, saveOk, hdone⟩⟩ := perform_outside env ns op hop
  · rw [hdone]
    exact ⟨fun _ _ h => h, fun _ _ h => h⟩
  · rw [hdone]
    have hrows : ns.DropsFacts (ns.withRows rows) := ⟨fun _ _ h => h, fun _ _ h => h⟩
    exact (hrows.trans htrims.dropsFacts).trans (publish_republishes _ _ _ _ _ _ base).dropsFacts

theorem perform_dropsFacts (ns : NetState) (op : LockedOp) (hop : op.reports = false) :
    ns.DropsFacts (ns.perform env op) := by
  cases op with
  | join | sweep | flush | admin | importConfig => exact outside_dropsFacts ns _ rfl
  | register s haveGen p =>
    have h := register_republishes env.net env.encode ns s haveGen p.keys p.now p.nowMs p.saveOk
    exact ⟨h.dropsFacts.reportedMtu, h.dropsFacts.exitReadiness⟩
  | teardown node id p =>
    rcases teardown_cases env.net env.encode ns node id p.keys p.now p.nowMs p.saveOk with
      hsame | ⟨retired, hpublish⟩
    · rw [perform, hsame]
      exact ⟨fun _ _ h => h, fun _ _ h => h⟩
    · rw [perform, hpublish]
      exact (teardown_trims ns node retired).dropsFacts.trans (publish_republishes _ _ _ _ _ _ _).dropsFacts
  | heartbeat node role hb p =>
    have hquiet : ¬ 0 < hb.usableMtu := by simpa [LockedOp.reports] using hop
    have hfold : ns.DropsFacts (ns.foldHeartbeat node role hb p.now p.nowMs).1 := by
      refine ⟨fun n m hm => ?_, fun n er her => ?_⟩
      · rwa [foldHeartbeat_reportedMtu, if_neg hquiet] at hm
      · rwa [foldHeartbeat_exitReadiness] at her
    exact hfold.trans
      (onHeartbeat_republishes env.net env.encode p.keys p.now p.nowMs p.saveOk ns node role hb).dropsFacts
  | exitReadiness node er p => cases hop
  | resync node haveGen now => exact (onResync_delivers now ns node haveGen).republishes.dropsFacts
  | refresh node exp loginGen nowMs => exact ⟨fun _ _ h => h, fun _ _ h => h⟩

/-! ### Which ends of a session clear what -/

def ClearsMtu (ns : NetState) : LockedOp → NodeId → Prop
  | .teardown node _ _, n => node = n
  | .sweep p, n => n ∈ ns.silentAt p.nowMs
  | .admin _ _ (.deleteMember name), n => ns.registry.idOf name = some n
  | _, _ => False

def ClearsReadiness : LockedOp → NodeId → Prop
  | .teardown node _ _, n => node = n
  | _, _ => False

/-- A node whose session ends, or is replaced, has nothing on record that the operation
leaves there. -/
def Tidy (env : CoordText) (ns : NetState) (op : LockedOp) : Prop :=
  ∀ n, (ns.perform env op).sessionId n ≠ ns.sessionId n →
    (¬ ns.ClearsMtu op n → ns.directory.reportedMtu[n]? = none) ∧
      (¬ ClearsReadiness op n → ns.directory.exitReadiness[n]? = none)
variable {p : Publishing} {n : NodeId} {op : LockedOp}

theorem teardown_clears {node : NodeId} {id : Nat}
    (hended : (ns.perform env (.teardown node id p)).sessionId node ≠ ns.sessionId node) :
    (ns.perform env (.teardown node id p)).directory.reportedMtu[node]? = none ∧
      (ns.perform env (.teardown node id p)).directory.exitReadiness[node]? = none := by
  rcases teardown_cases env.net env.encode ns node id p.keys p.now p.nowMs p.saveOk with
    hsame | ⟨retired, hpublish⟩
  · exact absurd (congrArg (sessionId · node) hsame) hended
  · have hfacts := (publish_republishes env.net env.encode p.keys p.now p.nowMs p.saveOk 
      (ns.tornDown node retired)).facts
    rw [perform, hpublish, hfacts.reportedMtu, hfacts.exitReadiness]
    exact ⟨getElem?_erase_self, getElem?_erase_self⟩

theorem sweep_clears (hn : n ∈ ns.silentAt p.nowMs) :
    (ns.perform env (.sweep p)).directory.reportedMtu[n]? = none := by
  rw [perform, sweep_eq]
  have hfacts := (publish_republishes env.net env.encode p.keys p.now p.nowMs p.saveOk
    (((ns.silenced p.now p.nowMs).expiredAt p.now).foldl sweepExpired (ns.silenced p.now p.nowMs))).facts
  obtain ⟨retired, hsilenced⟩ := ns.silenced_eq p.now p.nowMs
  obtain ⟨retired', hexpired⟩ := foldl_drop_eq id
    (fun _ s => s.shut "credential expired" closeExpired "credential expired")
    ((ns.silenced p.now p.nowMs).expiredAt p.now) (ns.silenced p.now p.nowMs)
  rw [hfacts.reportedMtu]
  change (((ns.silenced p.now p.nowMs).expiredAt p.now).foldl
    (fun ns a => ns.dropSession (id a) fun s => s.shut "credential expired" closeExpired "credential expired")
    (ns.silenced p.now p.nowMs)).directory.reportedMtu[n]? = none
  rw [hexpired, hsilenced]
  simp [hn]

theorem deleteMember_clears {keys : List KeyInfo} {r : AdminReading} {name : String}
    (hn : ns.registry.idOf name = some n)
    (hended : (ns.perform env (.admin keys r (.deleteMember name))).sessionId n ≠ ns.sessionId n) :
    (ns.perform env (.admin keys r (.deleteMember name))).directory.reportedMtu[n]? = none := by
  rcases @exec_ends env keys r ns (.deleteMember name) with ⟨err, -, hexec⟩ | ⟨e, -, ⟨-, hexec⟩ | ⟨-, err, hexec⟩⟩
  · exact absurd (by rw [perform, hexec]) hended
  · rw [perform, hexec]
    simp only [finish, hn]
    have hfacts := (publish_republishes env.net env.encode keys r.clock.now r.clock.nowMs r.db.mark
      (((ns.withRows (ns.written r e).1).closeSession n "member deleted").forget n)).facts
    rw [publishNow, hfacts.reportedMtu]
    exact getElem?_erase_self
  · exact absurd (by rw [perform, hexec]; rfl) hended

theorem ClearsMtu.reportedMtu (h : ns.ClearsMtu op n)
    (hended : (ns.perform env op).sessionId n ≠ ns.sessionId n) :
    (ns.perform env op).directory.reportedMtu[n]? = none := by
  cases op with
  | teardown node id p =>
    obtain rfl : node = n := h
    exact (teardown_clears hended).1
  | sweep p => exact sweep_clears h
  | admin keys r op =>
    cases op with
    | deleteMember name => exact deleteMember_clears h hended
    | _ => exact h.elim
  | _ => exact h.elim

theorem ClearsReadiness.exitReadiness (h : ClearsReadiness op n)
    (hended : (ns.perform env op).sessionId n ≠ ns.sessionId n) :
    (ns.perform env op).directory.exitReadiness[n]? = none := by
  cases op with
  | teardown node id p =>
    obtain rfl : node = n := h
    exact (teardown_clears hended).2
  | _ => exact h.elim

theorem Tidy.sessionId_of_mtu (h : ns.Tidy env op) (hop : op.reports = false) {m : Nat}
    (hm : (ns.perform env op).directory.reportedMtu[n]? = some m) :
    (ns.perform env op).sessionId n = ns.sessionId n := by
  by_contra hended
  have hnone : (ns.perform env op).directory.reportedMtu[n]? ≠ none := by simp [hm]
  refine hnone ?_
  by_cases hclears : ns.ClearsMtu op n
  · exact hclears.reportedMtu hended
  · have hbefore := (perform_dropsFacts ns op hop).reportedMtu n m hm
    rw [(h n hended).1 hclears] at hbefore
    cases hbefore

theorem Tidy.sessionId_of_ready (h : ns.Tidy env op) (hop : op.reports = false) {er : ExitReadiness}
    (her : (ns.perform env op).directory.exitReadiness[n]? = some er) :
    (ns.perform env op).sessionId n = ns.sessionId n := by
  by_contra hended
  have hnone : (ns.perform env op).directory.exitReadiness[n]? ≠ none := by simp [her]
  refine hnone ?_
  by_cases hclears : ClearsReadiness op n
  · exact hclears.exitReadiness hended
  · have hbefore := (perform_dropsFacts ns op hop).exitReadiness n er her
    rw [(h n hended).2 hclears] at hbefore
    cases hbefore

theorem reports_sessionId (hop : op.reports) (n : NodeId) :
    (ns.perform env op).sessionId n = ns.sessionId n := by
  cases op with
  | heartbeat node role hb p =>
    exact (onHeartbeat_republishes env.net env.encode p.keys p.now p.nowMs p.saveOk ns node role
      hb).sessionId n
  | exitReadiness node er p =>
    exact (onExitReadiness_republishes env.net env.encode p.keys p.now p.nowMs p.saveOk ns node er).sessionId n
  | _ => cases hop

end NetState

/-! ### Runs -/

theorem Conn.Advances.grows {k k' : Conn} {id : Nat} {ns : NetState} {op : Option LockedOp}
    (h : k.Advances id ns k' op) : k.limits ⊆ k'.limits ∧ k.reports ⊆ k'.reports := by
  cases h with
  | register | resync | renew | finish => exact ⟨fun _ h => h, fun _ h => h⟩
  | quiet _ _ hlimits hreports _ => exact ⟨fun _ h => hlimits ▸ h, fun _ h => hreports ▸ h⟩
  | heartbeat _ =>
    refine ⟨fun m hm => ?_, fun _ h => h⟩
    simp only [Conn.foldHeartbeat]
    split_ifs
    · exact List.mem_cons_of_mem _ hm
    · exact hm
  | exitReadiness _ _ => exact ⟨fun _ h => h, fun _ h => List.mem_cons_of_mem _ h⟩

namespace Control

variable {env : CoordText} {s s' : Control}

def OnSession (s : Control) (n : NodeId) (P : Conn → Prop) : Prop :=
  ∃ id k, s.net.sessionId n = some id ∧ s.conns[id]? = some k ∧ P k

/-- What is on record was reported on the session that is registered. -/
structure FactsLive (s : Control) : Prop where
  mtu : ∀ (n : NodeId) (m : Nat), s.net.directory.reportedMtu[n]? = some m →
    minTunnelMtu ≤ m ∧ s.OnSession n fun k => m ∈ k.limits
  ready : ∀ (n : NodeId) (er : ExitReadiness), s.net.directory.exitReadiness[n]? = some er →
    s.OnSession n fun k => er ∈ k.reports

/-- A default route is published only for a node that reported itself ready on the session
it has registered, and a node limits the MTU only if it reported that MTU on it. -/
structure ViewLive (s : Control) : Prop where
  exit : ∀ m ∈ s.net.directory.published.members, ∀ c ∈ m.prefixes, c.isDefault = true →
    s.OnSession m.nodeId fun k => ∃ er ∈ k.reports, er.ok = true
  mtu : ∀ n : NodeId, s.net.directory.published.mtu.limitedBy = s!"#{n}" →
    s.OnSession n fun k => s.net.directory.published.mtu.mtu ∈ k.limits

theorem FactsLive.viewLive (h : s.FactsLive) (hshows : s.net.Shows env.net) : s.ViewLive := by
  refine ⟨fun m hm c hc hdefault => ?_, fun n hn => ?_⟩
  · obtain ⟨er, her, hok⟩ := hshows.exists_ready hm hc hdefault
    obtain ⟨id, k, hid, hk, hmem⟩ := h.ready m.nodeId er her
    exact ⟨id, k, hid, hk, er, hmem, hok⟩
  · obtain ⟨m, hm, hmtu⟩ := hshows.reportedMtu hn
    obtain ⟨hfloor, id, k, hid, hk, hmem⟩ := h.mtu n m hm
    refine ⟨id, k, hid, hk, ?_⟩
    rw [hmtu, max_eq_left hfloor]
    exact hmem

def Grows (s s' : Control) : Prop :=
  ∀ (id : Nat) (k : Conn), s.conns[id]? = some k → ∃ k', s'.conns[id]? = some k' ∧
    k.limits ⊆ k'.limits ∧ k.reports ⊆ k'.reports

theorem OnSession.mono {n : NodeId} {P Q : Conn → Prop} (h : s.OnSession n P) (hgrows : s.Grows s')
    (hid : s'.net.sessionId n = s.net.sessionId n)
    (hPQ : ∀ k k' : Conn, k.limits ⊆ k'.limits → k.reports ⊆ k'.reports → P k → Q k') :
    s'.OnSession n Q := by
  obtain ⟨id, k, hsession, hk, hP⟩ := h
  obtain ⟨k', hk', hlimits, hreports⟩ := hgrows id k hk
  exact ⟨id, k', hid.trans hsession, hk', hPQ k k' hlimits hreports hP⟩

theorem ViewLive.of_sameSessions (h : s.ViewLive) (hgrows : s.Grows s')
    (hsame : s.net.SameSessions s'.net) : s'.ViewLive := by
  refine ⟨fun m hm c hc hdefault => ?_, fun n hn => ?_⟩
  · rw [hsame.published] at hm
    refine (h.exit m hm c hc hdefault).mono hgrows (hsame.sessionId _) fun k k' _ hreports => ?_
    exact fun ⟨er, her, hok⟩ => ⟨er, hreports her, hok⟩
  · rw [hsame.published] at hn ⊢
    exact (h.mtu n hn).mono hgrows (hsame.sessionId n) fun k k' hlimits _ hmem => hlimits hmem

variable {op : LockedOp} {id : Nat} {k : Conn}

theorem FactsLive.perform (h : s.FactsLive) (hgrows : s.Grows s') (hnet : s'.net = s.net.perform env op)
    (htidy : s.net.Tidy env op) (hop : op.reports = false) :
    s'.FactsLive := by
  have hdrops := @NetState.perform_dropsFacts env s.net op hop
  rw [← hnet] at hdrops
  refine ⟨fun n m hm => ?_, fun n er her => ?_⟩
  · obtain ⟨hfloor, hon⟩ := h.mtu n m (hdrops.reportedMtu n m hm)
    have hid : s'.net.sessionId n = s.net.sessionId n := by
      rw [hnet] at hm ⊢
      exact htidy.sessionId_of_mtu hop hm
    exact ⟨hfloor, hon.mono hgrows hid fun k k' hlimits _ hmem => hlimits hmem⟩
  · have hid : s'.net.sessionId n = s.net.sessionId n := by
      rw [hnet] at her ⊢
      exact htidy.sessionId_of_ready hop her
    exact (h.ready n er (hdrops.exitReadiness n er her)).mono hgrows hid
      fun k k' _ hreports hmem => hreports hmem

theorem minTunnelMtu_le_quantizeMtu (reported ceiling : Nat) :
    minTunnelMtu ≤ quantizeMtu reported ceiling :=
  le_max_right _ _

theorem FactsLive.report (h : s.FactsLive) (hgrows : s.Grows s') {k' : Conn}
    (hadvances : k.Advances id s.net k' (some op)) (hnet : s'.net = s.net.perform env op)
    (hk' : s'.conns[id]? = some k') (hop : op.reports) (hlive : s.net.sessionId k.node = some id) :
    s'.FactsLive := by
  have hid (n : NodeId) : s'.net.sessionId n = s.net.sessionId n := by
    rw [hnet]
    exact NetState.reports_sessionId hop n
  have hmono {n : NodeId} {m : Nat} (hm : s.net.directory.reportedMtu[n]? = some m) :
      minTunnelMtu ≤ m ∧ s'.OnSession n fun k => m ∈ k.limits :=
    ⟨(h.mtu n m hm).1, (h.mtu n m hm).2.mono hgrows (hid n) fun k k' hlimits _ hmem => hlimits hmem⟩
  have hready {n : NodeId} {er : ExitReadiness} (her : s.net.directory.exitReadiness[n]? = some er) :
      s'.OnSession n fun k => er ∈ k.reports :=
    (h.ready n er her).mono hgrows (hid n) fun k k' _ hreports hmem => hreports hmem
  cases hadvances with
  | @heartbeat inbox pending hb p _ =>
    have hpos : 0 < hb.usableMtu := by simpa [LockedOp.reports] using hop
    have hafter := (NetState.onHeartbeat_republishes env.net env.encode p.keys p.now p.nowMs p.saveOk s.net
      k.claims.nodeId k.claims.role hb).facts
    refine ⟨fun n m hm => ?_, fun n er her => ?_⟩
    · rw [hnet, NetState.perform, hafter.reportedMtu, NetState.foldHeartbeat_reportedMtu, if_pos hpos,
        getElem?_insert] at hm
      split_ifs at hm with hn
      · cases hm
        obtain rfl : k.node = n := compare_eq_iff_eq.mp hn
        refine ⟨minTunnelMtu_le_quantizeMtu _ _, id, _, (hid _).trans hlive, hk', ?_⟩
        simp only [Conn.foldHeartbeat, if_pos hpos]
        exact List.mem_cons_self
      · exact hmono hm
    · rw [hnet, NetState.perform, hafter.exitReadiness, NetState.foldHeartbeat_exitReadiness] at her
      exact hready her
  | @exitReadiness inbox er p _ _ =>
    have hafter := (NetState.onExitReadiness_republishes env.net env.encode p.keys p.now p.nowMs p.saveOk
      s.net k.claims.nodeId er).facts
    refine ⟨fun n m hm => ?_, fun n er' her => ?_⟩
    · rw [hnet, NetState.perform, hafter.reportedMtu] at hm
      exact hmono hm
    · rw [hnet, NetState.perform, hafter.exitReadiness, getElem?_insert] at her
      split_ifs at her with hn
      · cases her
        obtain rfl : k.node = n := compare_eq_iff_eq.mp hn
        exact ⟨id, _, (hid _).trans hlive, hk', List.mem_cons_self⟩
      · exact hready her
  | register | resync | renew | finish => cases hop

theorem grows_insert {net : NetState}
    (hk : ∀ k₀, s.conns[id]? = some k₀ → k₀.limits ⊆ k.limits ∧ k₀.reports ⊆ k.reports) :
    s.Grows ⟨net, s.conns.insert id k⟩ := by
  intro id' k' hk'
  simp only [getElem?_insert, compare_eq_iff_eq]
  split_ifs with hid
  · subst hid
    exact ⟨k, rfl, hk k' hk'⟩
  · exact ⟨k', hk', fun _ h => h, fun _ h => h⟩

/-- What a run has to avoid: ending or replacing a session while something of its node is
on record that stays there, and a report of a connection whose session is over. -/
def Orderly (env : CoordText) (s : Control) : ControlEvent → Prop
  | .outside op => s.net.Tidy env op
  | .hello _ _ => True
  | .conn id e => ∀ k k' op, s.conns[id]? = some k → k.advance id s.net e = some (k', some op) →
      s.net.Tidy env op ∧ (op.reports = true → s.net.sessionId k.node = some id)

theorem outside_reports (h : op.outside) : op.reports = false := by
  cases op <;> first | rfl | cases h

theorem step_live {e : ControlEvent} (hfacts : s.FactsLive) (hview : s.ViewLive) (horderly : s.Orderly env e)
    (hstep : s.step env e = some s') : s'.FactsLive ∧ s'.ViewLive := by
  -- Every step is a growth of the connections and at most one operation.
  have hop {op : LockedOp} (hgrows : s.Grows s') (hnet : s'.net = s.net.perform env op)
      (hfacts' : s'.FactsLive) : s'.FactsLive ∧ s'.ViewLive := by
    refine ⟨hfacts', ?_⟩
    have hviews := @NetState.perform_views env s.net op
    rw [← hnet] at hviews
    rcases hviews with hsame | hshows
    · exact hview.of_sameSessions hgrows hsame
    · exact hfacts'.viewLive hshows
  have hidle (hgrows : s.Grows s') (hnet : s'.net = s.net) : s'.FactsLive ∧ s'.ViewLive := by
    have hid (n : NodeId) : s'.net.sessionId n = s.net.sessionId n := by rw [hnet]
    refine ⟨⟨fun n m hm => ?_, fun n er her => ?_⟩, hview.of_sameSessions hgrows ⟨by rw [hnet], hid⟩⟩
    · rw [hnet] at hm
      exact ⟨(hfacts.mtu n m hm).1, (hfacts.mtu n m hm).2.mono hgrows (hid n)
        fun k k' hlimits _ hmem => hlimits hmem⟩
    · rw [hnet] at her
      exact (hfacts.ready n er her).mono hgrows (hid n) fun k k' _ hreports hmem => hreports hmem
  cases e with
  | outside op =>
    simp only [step] at hstep
    split_ifs at hstep with houtside
    cases hstep
    have hgrows : s.Grows { s with net := s.net.perform env op } :=
      fun id k hk => ⟨k, hk, fun _ h => h, fun _ h => h⟩
    exact hop hgrows rfl (hfacts.perform hgrows rfl horderly (outside_reports houtside))
  | hello id c =>
    simp only [step] at hstep
    split_ifs at hstep with hnew
    cases hstep
    refine hidle (grows_insert fun k₀ hk₀ => ?_) rfl
    rw [hnew.1] at hk₀
    cases hk₀
  | conn id e =>
    obtain ⟨k, k', op, hk, hadvance, rfl⟩ := step_conn_eq_some.mp hstep
    have hadvances := Conn.advances_of_advance hadvance
    have hgrows : s.Grows ⟨op.elim s.net (s.net.perform env), s.conns.insert id k'⟩ := by
      refine grows_insert fun k₀ hk₀ => ?_
      cases hk.symm.trans hk₀
      exact hadvances.grows
    cases op with
    | none => exact hidle hgrows rfl
    | some op =>
      obtain ⟨htidy, hlive⟩ := horderly k k' op hk hadvance
      cases hreports : op.reports with
      | false => exact hop hgrows rfl (hfacts.perform hgrows rfl htidy hreports)
      | true =>
        exact hop hgrows rfl (hfacts.report hgrows hadvances rfl getElem?_insert_self
          hreports (hlive hreports))

/-- In a run that avoids them, the view only ever rests on what was reported on the session
that is registered. -/
theorem facts_end_with_session {s : Control}
    (hr : (controlSystem env).ReachableWith (Orderly env) s) : s.ViewLive := by
  refine (hr.invariant (P := fun s => s.FactsLive ∧ s.ViewLive) ?_ ?_).2
  · rintro ⟨net, conns⟩ ⟨-, cfg, reg, stored, now, nowMs, startedAt, hnet⟩
    subst hnet
    refine ⟨⟨fun n m hm => ?_, fun n er her => ?_⟩, ⟨fun m hm => ?_, fun n hn => ?_⟩⟩
    · simp [NetState.new, Directory.new] at hm
    · simp [NetState.new, Directory.new] at her
    · simp [NetState.new, Directory.new, Snapshot.default] at hm
    · change "" = "#" ++ toString n at hn
      have hchars := congrArg (fun s : String => s.toList.head?) hn
      simp at hchars
  · intro s e s' h horderly hstep
    exact step_live h.1 h.2 horderly hstep

/-! ### An exit that goes away -/

namespace FactsExample

open ControlExample

def reported (m : ControlMsg) : List ControlEvent :=
  [.hello 0 claims, .conn 0 (.register 0 (atSecond 1)), .conn 0 (.arrive m),
    .conn 0 (.handle true (atSecond 2))]

def silence : ControlEvent := .outside (.sweep (atSecond 100))

def disable : ControlEvent :=
  .outside (.admin [] ⟨fun _ _ => [], ⟨3, 3, 3000⟩, ⟨true, true, true, true, true⟩⟩ (.setDisabled "gw" true))

def shown (s : Control) : List NodeId × String × Option Nat :=
  ((s.net.directory.published.members.filter fun m => m.prefixes.any (·.isDefault)).map (·.nodeId),
    s.net.directory.published.mtu.limitedBy, s.net.sessionId 1)

end FactsExample

theorem tidy_of_factFree {ns : NetState} (h : ns.directory.reportedMtu = ∅ ∧ ns.directory.exitReadiness = ∅) : ns.Tidy env op := by
  refine fun n _ => ⟨fun _ => ?_, fun _ => ?_⟩
  · rw [h.1]
    exact getElem?_empty
  · rw [h.2]
    exact getElem?_empty

open ControlExample FactsExample in
theorem facts_end_with_session_reported : ∃ s,
    (controlSystem .byteText).run start (reported (.exitReadiness ready)) = some s ∧
      shown s = ([1], "config", some 0) ∧ s.ViewLive := by
  have hshown : ((controlSystem .byteText).run start (reported (.exitReadiness ready))).map shown =
      some ([1], "config", some 0) := by decide +kernel
  have hlive : ((controlSystem .byteText).run start ((reported (.exitReadiness ready)).take 3)).map
      (fun s => ((s.conns[0]?).map Conn.node, s.net.sessionId 1)) = some (some 1, some 0) := by
    decide +kernel
  obtain ⟨s, hrun, hshown⟩ := map_eq_some_iff.mp hshown
  refine ⟨s, hrun, hshown, @facts_end_with_session .byteText s ?_⟩
  simp only [reported, TransitionSystem.run_cons, TransitionSystem.run_nil, bind_eq_some_iff,
    some.injEq, exists_eq_right] at hrun
  obtain ⟨s₁, h₁, s₂, h₂, s₃, h₃, h₄⟩ := hrun
  simp only [reported, List.take, TransitionSystem.run_cons, TransitionSystem.run_nil, h₁, h₂, h₃,
    bind_some, map_some, some.injEq, Prod.mk.injEq] at hlive
  -- Up to the report no fact is on record.
  have hfree₁ : s₁.net.directory.reportedMtu = ∅ ∧ s₁.net.directory.exitReadiness = ∅ := by
    simp only [controlSystem, step] at h₁
    split_ifs at h₁
    cases h₁
    exact ⟨rfl, rfl⟩
  have hfree₂ : s₂.net.directory.reportedMtu = ∅ ∧ s₂.net.directory.exitReadiness = ∅ := by
    obtain ⟨k, k', op, -, hadvance, rfl⟩ := step_conn_eq_some.mp h₂
    simp only [Conn.advance] at hadvance
    split at hadvance
    · cases hadvance
      have h := (NetState.register_republishes CoordText.byteText.net CoordText.byteText.encode s₁.net
        (k.session 0) 0 (atSecond 1).keys (atSecond 1).now (atSecond 1).nowMs (atSecond 1).saveOk).facts
      exact ⟨h.reportedMtu.trans hfree₁.1, h.exitReadiness.trans hfree₁.2⟩
    · cases hadvance
  have hfree₃ : s₃.net.directory.reportedMtu = ∅ ∧ s₃.net.directory.exitReadiness = ∅ := by
    obtain ⟨k, k', op, -, hadvance, rfl⟩ := step_conn_eq_some.mp h₃
    simp only [Conn.advance] at hadvance
    split at hadvance <;> cases hadvance
    exact hfree₂
  have hello : Orderly .byteText start (.hello 0 claims) := trivial
  refine .step (.step (.step (.step (.initial start_initial) hello h₁) ?_ h₂) ?_ h₃) ?_ h₄
  · intro k k' op _ hadvance
    refine ⟨tidy_of_factFree hfree₁, fun hreports => ?_⟩
    simp only [Conn.advance] at hadvance
    split at hadvance <;> cases hadvance
    cases hreports
  · intro k k' op _ hadvance
    simp only [Conn.advance] at hadvance
    split at hadvance <;> cases hadvance
  · intro k k' op hk hadvance
    refine ⟨tidy_of_factFree hfree₃, fun _ => ?_⟩
    rw [hk, map_some, some.injEq] at hlive
    rw [hlive.1]
    exact hlive.2

open ControlExample FactsExample in
/-- The default route of an exit that fell silent stays, and a disabled relay goes on
limiting the MTU, neither with a session. -/
theorem facts_outlive_session :
    (∃ s, (controlSystem .byteText).Reachable s ∧ shown s = ([1], "config", none) ∧ ¬ s.ViewLive) ∧
      ∃ s, (controlSystem .byteText).Reachable s ∧ shown s = ([], "#1", none) ∧ ¬ s.ViewLive := by
  have hexit : ((controlSystem .byteText).run start (reported (.exitReadiness ready) ++ [silence])).map shown =
      some ([1], "config", none) := by decide +kernel
  have hmtu : ((controlSystem .byteText).run start (reported (.heartbeat narrow) ++ [disable])).map shown =
      some ([], "#1", none) := by decide +kernel
  obtain ⟨s, hrun, hs⟩ := map_eq_some_iff.mp hexit
  obtain ⟨t, hrun', ht⟩ := map_eq_some_iff.mp hmtu
  refine ⟨⟨s, .of_run (.of_initial start_initial) hrun, hs, fun hlive => ?_⟩,
    ⟨t, .of_run (.of_initial start_initial) hrun', ht, fun hlive => ?_⟩⟩
  · simp only [shown, Prod.mk.injEq] at hs
    obtain ⟨hnodes, -, hsession⟩ := hs
    obtain ⟨m, hm, hnode⟩ := List.mem_map.mp (hnodes ▸ List.mem_cons_self)
    obtain ⟨hmem, hdefault⟩ := List.mem_filter.mp hm
    obtain ⟨c, hc, hc'⟩ := List.any_eq_true.mp hdefault
    obtain ⟨id, k, hid, -⟩ := hlive.exit m hmem c hc hc'
    rw [hnode, hsession] at hid
    cases hid
  · simp only [shown, Prod.mk.injEq] at ht
    obtain ⟨-, hlimited, hsession⟩ := ht
    obtain ⟨id, k, hid, -⟩ := hlive.mtu 1 hlimited
    rw [hsession] at hid
    cases hid

end Control

end Nqvpn
