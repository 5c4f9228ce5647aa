import Nqvpn.AttachmentTable
import Nqvpn.NetworkRuns
import Nqvpn.PublishedView

/-!
# Deferred publishes

A report that changes what the view is derived from publishes at once, or leaves it to a task that
publishes later. Only the task takes the flag back, under the lock under which it publishes, so a
change is never left without a publish to come.
-/

namespace Nqvpn

open Std.ExtTreeMap

/-! ### The flag -/

namespace NetState

section Flag

variable {env : CoordText} (ns : NetState)

@[simp] theorem flushScheduled_publish (text : IpNetText) (encode : Snapshot → List UInt8)
    (keys : List KeyInfo) (now nowMs : Nat) (saveOk : Bool) :
    (ns.publish text encode keys now nowMs saveOk).flushScheduled = ns.flushScheduled := by
  unfold publish
  simp only
  split <;> rfl

variable (node : NodeId)

@[simp] theorem flushScheduled_dropSession (finish : Session → Session) :
    (ns.dropSession node finish).flushScheduled = ns.flushScheduled := by
  rw [dropSession_eq]

theorem flushScheduled_foldl {α : Type} (f : NetState → α → NetState)
    (hf : ∀ ns a, (f ns a).flushScheduled = ns.flushScheduled) (l : List α) :
    (l.foldl f ns).flushScheduled = ns.flushScheduled :=
  List.foldlRecOn (motive := fun ns' : NetState => ns'.flushScheduled = ns.flushScheduled) l f rfl
    fun ns' h a _ => (hf ns' a).trans h

@[simp] theorem flushScheduled_reconfigureAll (why : String) :
    (ns.reconfigureAll why).flushScheduled = ns.flushScheduled :=
  ns.flushScheduled_foldl _ (fun ns node => ns.flushScheduled_dropSession node _) _

@[simp] theorem flushScheduled_reconfigureNamed (names : List String) (why : String) :
    (ns.reconfigureNamed names why).flushScheduled = ns.flushScheduled := by
  refine ns.flushScheduled_foldl _ (fun ns name => ?_) _
  cases ns.registry.idOf name with
  | none => rfl
  | some node => exact ns.flushScheduled_dropSession node _

@[simp] theorem flushScheduled_closeSession (reason : String) :
    (ns.closeSession node reason).flushScheduled = ns.flushScheduled :=
  ns.flushScheduled_dropSession node _

@[simp] theorem flushScheduled_closeStale (plan : JoinPlan) (name peerIp : String) :
    (ns.closeStale plan name peerIp).flushScheduled = ns.flushScheduled := by
  unfold closeStale
  split_ifs
  · exact ns.flushScheduled_dropSession _ _
  · rfl

@[simp] theorem flushScheduled_catchUp (haveGen : Nat) :
    (ns.catchUp node haveGen).flushScheduled = ns.flushScheduled := by
  rw [(ns.catchUp_delivers node haveGen).rest]

theorem flushScheduled_finish (keys : List KeyInfo) (r : AdminReading) (done : NetState) (op : NetworkOp) :
    (ns.finish env keys r done op).flushScheduled = done.flushScheduled := by
  cases op with
  | updateNetwork spec =>
    simp only [finish, publishNow, flushScheduled_publish]
    split_ifs
    · exact flushScheduled_reconfigureAll _ _
    · rfl
  | createMember name role spec secret => rfl
  | updateMember name spec => simp [finish, publishNow]
  | rotateMember name secret =>
    simp only [finish]
    split
    · simp [publishNow]
    · rfl
  | deleteMember name =>
    simp only [finish]
    split
    · simp [publishNow, forget]
    · simp [publishNow]
  | setDisabled name disabled =>
    simp only [finish]
    split
    · simp only [publishNow, flushScheduled_publish]
      split_ifs
      · exact done.flushScheduled_closeSession _ _
      · rfl
    · rfl

theorem flushScheduled_applyImport (keys : List KeyInfo) (r : AdminReading) (cfg : NetworkConfig)
    (reg : Registry) : (ns.applyImport env keys r cfg reg).flushScheduled = ns.flushScheduled := by
  have hretired : ∀ ns' : NetState, ((ns.importRetires cfg reg).foldl
      (fun ns (x : NodeId × String) => ns.closeSession x.1 x.2) ns').flushScheduled = ns'.flushScheduled :=
    fun ns' => ns'.flushScheduled_foldl _ (fun ns (x : NodeId × String) => ns.flushScheduled_closeSession x.1 x.2) _
  simp only [applyImport, publishNow, flushScheduled_publish]
  split_ifs
  · rw [flushScheduled_reconfigureAll, hretired]
  · rw [flushScheduled_reconfigureNamed, hretired]

theorem flushScheduled_sweep (text : IpNetText) (encode : Snapshot → List UInt8) (keys : List KeyInfo)
    (now nowMs : Nat) (saveOk : Bool) :
    (ns.sweep text encode keys now nowMs saveOk).flushScheduled = ns.flushScheduled := by
  have hexpired (ns' : NetState) (node : NodeId) : (ns'.sweepExpired node).flushScheduled = ns'.flushScheduled :=
    ns'.flushScheduled_dropSession node _
  have hsilent (ns' : NetState) (node : NodeId) : (ns'.sweepSilent node).flushScheduled = ns'.flushScheduled :=
    flushScheduled_dropSession _ node _
  simp only [sweep, flushScheduled_publish]
  rw [flushScheduled_foldl _ _ hexpired, flushScheduled_foldl _ _ hsilent]

end Flag

end NetState

def LockedOp.isReport : LockedOp → Bool
  | .heartbeat _ _ _ _ | .exitReadiness _ _ _ => true
  | _ => false

def LockedOp.publishing : LockedOp → Publishing
  | .heartbeat _ _ _ p | .exitReadiness _ _ p => p
  | _ => ⟨[], 0, 0, false⟩

def LockedOp.isFlush : LockedOp → Bool
  | .flush _ => true
  | _ => false

namespace NetState

variable {env : CoordText}

theorem flushScheduled_perform (env : CoordText) (ns : NetState) (op : LockedOp) (hreport : op.isReport = false)
    (hflush : op.isFlush = false) : (ns.perform env op).flushScheduled = ns.flushScheduled := by
  cases op with
  | join name presented req peerIp signing t db =>
    simp only [perform, NetState.join]
    split
    · rfl
    · rename_i plan _
      rw [commit_eq]
      split_ifs
      · simp only [flushScheduled_publish, flushScheduled_closeStale]
        rfl
      · rfl
  | register s haveGen p =>
    simp only [perform, register]
    split_ifs <;> simp
  | teardown node id p =>
    rcases teardown_cases env.net env.encode ns node id p.keys p.now p.nowMs p.saveOk with
      hsame | ⟨retired, hpublished⟩
    · rw [perform, hsame]
    · rw [perform, hpublished, flushScheduled_publish]
      rfl
  | heartbeat node role hb p | exitReadiness node er p => cases hreport
  | resync node haveGen now =>
    simp only [perform, onResync]
    split_ifs
    · rfl
    · exact ns.flushScheduled_catchUp node haveGen
  | refresh node exp loginGen nowMs => rfl
  | sweep p => exact ns.flushScheduled_sweep env.net env.encode p.keys p.now p.nowMs p.saveOk
  | flush p => cases hflush
  | admin keys r op =>
    rcases @exec_ends env keys r ns op with ⟨err, -, hexec⟩ | ⟨e, -, ⟨-, hexec⟩ | ⟨-, err, hexec⟩⟩
    · rw [perform, hexec]
    · rw [perform, hexec]
      exact ns.flushScheduled_finish keys r _ op
    · rw [perform, hexec]
      rfl
  | importConfig keys r cfg =>
    simp only [perform, importNetwork]
    split
    · rfl
    · exact ns.flushScheduled_applyImport keys r _ _

/-! ### The facts a view is derived from -/

/-- What reports say, as far as a view shows it. -/
structure ViewFacts where
  online : Std.ExtTreeMap NodeId Unit
  onlineSince : Std.ExtTreeMap NodeId Nat
  attachments : Std.ExtTreeMap NodeId NodeId
  reportedMtu : Std.ExtTreeMap NodeId Nat
  exitReadiness : Std.ExtTreeMap NodeId ExitReadiness
deriving DecidableEq

def viewFacts (ns : NetState) : ViewFacts where
  online := ns.leases.lastSeen.map fun _ _ => ()
  onlineSince := ns.leases.onlineSince
  attachments := ns.leases.attachments
  reportedMtu := ns.directory.reportedMtu
  exitReadiness := ns.directory.exitReadiness

end NetState

namespace Leases

variable {l : Leases} {node : NodeId} {role : Role} {hb : Heartbeat} {now maxAttached : Nat}
  {isClient : NodeId → Bool}

theorem facts_heartbeat_unreported (h : (l.heartbeat node role hb now isClient maxAttached).2 = false) :
    ((l.heartbeat node role hb now isClient maxAttached).1.lastSeen.map fun _ _ => ()) =
        l.lastSeen.map (fun _ _ => ()) ∧
      (l.heartbeat node role hb now isClient maxAttached).1.onlineSince = l.onlineSince ∧
      (l.heartbeat node role hb now isClient maxAttached).1.attachments = l.attachments := by
  obtain ⟨hseen, hclaims⟩ := heartbeat_sameClaims h
  have honline : l.lastSeen.contains node := by
    unfold seen at hseen
    simp only at hseen
    split_ifs at hseen with hon
    exact hon
  have hsince : (l.seen node now).1.onlineSince = l.onlineSince := by
    unfold seen
    rw [if_pos honline]
  have hfields : (l.heartbeat node role hb now isClient maxAttached).1.lastSeen = l.lastSeen.insert node now ∧
      (l.heartbeat node role hb now isClient maxAttached).1.onlineSince = l.onlineSince := by
    cases role with
    | relay =>
      exact ⟨l.seen_lastSeen node now, hsince⟩
    | client =>
      exact ⟨l.seen_lastSeen node now, hsince⟩
  refine ⟨?_, hfields.2, hclaims.attachments⟩
  rw [hfields.1]
  refine ext_getElem? fun n => ?_
  rw [getElem?_map, getElem?_map, getElem?_insert]
  split_ifs with hn
  · rw [compare_eq_iff_eq.mp hn, contains_eq_isSome_getElem?] at honline
    obtain ⟨last, hlast⟩ := Option.isSome_iff_exists.mp honline
    rw [hlast, Option.map_some, Option.map_some]
  · rfl

end Leases

namespace NetState

variable {env : CoordText} {ns : NetState}

theorem viewFacts_foldHeartbeat {node : NodeId} {role : Role} {hb : Heartbeat} {now nowMs : Nat}
    (h : (ns.foldHeartbeat node role hb now nowMs).2 = false) :
    (ns.foldHeartbeat node role hb now nowMs).1.viewFacts = ns.viewFacts := by
  simp only [foldHeartbeat, Bool.or_eq_false_iff, Bool.and_eq_false_iff, decide_eq_false_iff_not,
    bne_eq_false_iff_eq] at h
  obtain ⟨hleases, hmtu⟩ := h
  obtain ⟨honline, hsince, hattached⟩ := Leases.facts_heartbeat_unreported hleases
  have hreported : (if hb.usableMtu > 0 then
      { ns.directory with
        reportedMtu := ns.directory.reportedMtu.insert node (quantizeMtu hb.usableMtu ns.cfg.settings.mtu) }
      else ns.directory).reportedMtu = ns.directory.reportedMtu := by
    split_ifs with hpos
    · rcases hmtu with hzero | hsame
      · exact absurd hpos hzero
      · exact insert_eq_self_iff.mpr hsame
    · rfl
  have hready : (if hb.usableMtu > 0 then
      { ns.directory with
        reportedMtu := ns.directory.reportedMtu.insert node (quantizeMtu hb.usableMtu ns.cfg.settings.mtu) }
      else ns.directory).exitReadiness = ns.directory.exitReadiness := by
    split_ifs <;> rfl
  simp only [viewFacts, foldHeartbeat, honline, hsince, hattached]
  split <;> simp only [Directory.recordTraffic, Directory.pruneTraffic, hreported, hready]

/-! ### Reports and the task -/

/-- What a report leaves before anything is published: the facts folded in, and whether one the
view may show has changed. -/
def folded (ns : NetState) : LockedOp → NetState × Bool
  | .heartbeat node role hb p => ns.foldHeartbeat node role hb p.now p.nowMs
  | .exitReadiness node er _ =>
    ({ ns with directory := { ns.directory with
        exitReadiness := ns.directory.exitReadiness.insert node er } },
      ns.directory.exitReadiness[node]? != some er)
  | _ => (ns, false)

/-- `AppState::publish_soon`: the state, and the delay of the task if one is spawned. -/
def soon (env : CoordText) (ns : NetState) (op : LockedOp) : NetState × Option Nat :=
  let p := op.publishing
  if (ns.folded op).2 then (ns.folded op).1.publishSoon env.net env.encode p.keys p.now p.nowMs p.saveOk
  else ((ns.folded op).1, none)

def publishesAtOnce (ns : NetState) (op : LockedOp) : Bool :=
  (ns.folded op).2 && decide (publishDebounceMs ≤ op.publishing.nowMs - (ns.folded op).1.lastPublishMs)

theorem viewFacts_folded {op : LockedOp} (h : (ns.folded op).2 = false) :
    (ns.folded op).1.viewFacts = ns.viewFacts := by
  cases op with
  | heartbeat node role hb p => exact viewFacts_foldHeartbeat h
  | exitReadiness node er p =>
    simp only [folded, bne_eq_false_iff_eq] at h
    simp [folded, viewFacts, insert_eq_self_iff.mpr h]
  | join _ _ _ _ _ _ _ | register _ _ _ | teardown _ _ _ | resync _ _ _ | refresh _ _ _ _ | sweep _
  | flush _ | admin _ _ _ | importConfig _ _ _ => rfl

theorem flushScheduled_folded (op : LockedOp) : (ns.folded op).1.flushScheduled = ns.flushScheduled := by
  cases op <;> rfl

theorem flushScheduled_answerHeartbeat (ns : NetState) (node : NodeId) (hb : Heartbeat) (now : Nat) :
    (ns.answerHeartbeat node hb now).flushScheduled = ns.flushScheduled := by
  unfold answerHeartbeat
  split_ifs <;> simp

theorem flushScheduled_report (env : CoordText) (ns : NetState) {op : LockedOp} (h : op.isReport) :
    (ns.perform env op).flushScheduled = (ns.soon env op).1.flushScheduled := by
  cases op with
  | heartbeat node role hb p =>
    simp only [perform, onHeartbeat, flushScheduled_answerHeartbeat, soon, folded, LockedOp.publishing]
    split_ifs with hchanged <;> simp [hchanged]
  | exitReadiness node er p =>
    simp only [perform, onExitReadiness, soon, folded, LockedOp.publishing]
    split_ifs with hchanged <;> simp [hchanged]
  | join _ _ _ _ _ _ _ | register _ _ _ | teardown _ _ _ | resync _ _ _ | refresh _ _ _ _ | sweep _
  | flush _ | admin _ _ _ | importConfig _ _ _ => cases h

theorem soon_cases (env : CoordText) (ns : NetState) (op : LockedOp) :
    (ns.folded op).2 = false ∧ (ns.soon env op).2 = none ∧
        (ns.soon env op).1.flushScheduled = ns.flushScheduled ∨
      ns.publishesAtOnce op ∧ (ns.soon env op).2 = none ∧
        (ns.soon env op).1.flushScheduled = ns.flushScheduled ∨
      ns.publishesAtOnce op = false ∧ (ns.soon env op).1.flushScheduled ∧
        ((ns.soon env op).2 = none ∧ ns.flushScheduled ∨
          (ns.soon env op).2.isSome ∧ ns.flushScheduled = false) := by
  have hfolded := ns.flushScheduled_folded op
  unfold soon publishesAtOnce
  cases hchanged : (ns.folded op).2 with
  | false => exact .inl ⟨rfl, rfl, hfolded⟩
  | true =>
    refine .inr ?_
    simp only [if_true, publishSoon, Bool.true_and, decide_eq_true_eq, decide_eq_false_iff_not]
    by_cases hdue : publishDebounceMs ≤ op.publishing.nowMs - (ns.folded op).1.lastPublishMs
    · rw [if_pos hdue]
      exact .inl ⟨hdue, rfl, (flushScheduled_publish ..).trans hfolded⟩
    · rw [if_neg hdue]
      refine .inr ⟨hdue, ?_⟩
      cases hflag : (ns.folded op).1.flushScheduled with
      | true =>
        exact ⟨hflag, .inl ⟨rfl, hfolded.symm.trans hflag⟩⟩
      | false =>
        exact ⟨rfl, .inr ⟨rfl, hfolded.symm.trans hflag⟩⟩

end NetState

/-! ### Every interleaving -/

/-- A network with the tasks spawned for it. -/
structure Debounced where
  net : NetState
  /-- Spawned tasks that have not run. -/
  pending : Nat
  /-- A report has changed a fact, and neither it nor a later one nor a task has published since. -/
  unreflected : Bool

namespace Debounced

def step (env : CoordText) (s : Debounced) (op : LockedOp) : Option Debounced :=
  if op.isFlush then
    if s.pending = 0 then none else some ⟨s.net.perform env op, s.pending - 1, false⟩
  else if op.isReport then
    some ⟨s.net.perform env op, s.pending + (s.net.soon env op).2.toList.length,
      !s.net.publishesAtOnce op &&
        (s.unreflected || decide ((s.net.folded op).1.viewFacts ≠ s.net.viewFacts))⟩
  else some ⟨s.net.perform env op, s.pending, s.unreflected⟩

def system (env : CoordText) : TransitionSystem Debounced LockedOp where
  Initial s := s.net.flushScheduled = false ∧ s.pending = 0 ∧ s.unreflected = false
  step := step env

variable {env : CoordText} {s s' : Debounced}

/-- The flag stands for one task, and for every change that is not yet published. -/
structure Kept (s : Debounced) : Prop where
  pending : s.pending = if s.net.flushScheduled then 1 else 0
  unreflected : s.unreflected = true → s.net.flushScheduled = true

theorem Kept.report (h : s.Kept) {op : LockedOp} (hop : op.isReport) :
    Kept ⟨s.net.perform env op, s.pending + (s.net.soon env op).2.toList.length,
      !s.net.publishesAtOnce op &&
        (s.unreflected || decide ((s.net.folded op).1.viewFacts ≠ s.net.viewFacts))⟩ := by
  have hflag := s.net.flushScheduled_report env hop
  rcases s.net.soon_cases env op with ⟨hunchanged, hnone, hsame⟩ | ⟨honce, hnone, hsame⟩ |
    ⟨hlater, hset, hspawn⟩
  · refine ⟨?_, fun hun => ?_⟩
    · simp only [hflag, hsame, hnone, Option.toList_none, List.length_nil, Nat.add_zero]
      exact h.pending
    · simp only [NetState.viewFacts_folded hunchanged, ne_eq, not_true_eq_false, decide_false, Bool.or_false,
        Bool.and_eq_true] at hun
      simp only [hflag, hsame]
      exact h.unreflected hun.2
  · refine ⟨?_, fun hun => ?_⟩
    · simp only [hflag, hsame, hnone, Option.toList_none, List.length_nil, Nat.add_zero]
      exact h.pending
    · rw [honce] at hun
      cases hun
  · refine ⟨?_, fun _ => hflag.trans hset⟩
    have hpending := h.pending
    simp only [hflag, hset, if_true]
    rcases hspawn with ⟨hnone, hbefore⟩ | ⟨hsome, hbefore⟩
    · rw [hbefore] at hpending
      rw [hnone]
      exact hpending
    · rw [hbefore] at hpending
      obtain ⟨delay, hdelay⟩ := Option.isSome_iff_exists.mp hsome
      rw [hdelay, hpending]
      rfl

theorem Kept.step (h : s.Kept) {op : LockedOp} (hstep : Debounced.step env s op = some s') : s'.Kept := by
  unfold Debounced.step at hstep
  split_ifs at hstep with hflush hidle hreport
  · cases hstep
    cases op with
    | flush p =>
      have hcleared : (s.net.perform env (.flush p)).flushScheduled = false :=
        NetState.flushScheduled_publish ..
      have hpending := h.pending
      refine ⟨?_, fun hun => ?_⟩
      · simp only [hcleared, Bool.false_eq_true, if_false]
        split_ifs at hpending <;> omega
      · cases hun
    | join _ _ _ _ _ _ _ | register _ _ _ | teardown _ _ _ | heartbeat _ _ _ _ | exitReadiness _ _ _
    | resync _ _ _ | refresh _ _ _ _ | sweep _ | admin _ _ _ | importConfig _ _ _ => cases hflush
  · cases hstep
    exact h.report hreport
  · cases hstep
    have hsame := s.net.flushScheduled_perform env op (by simpa using hreport) (by simpa using hflush)
    exact ⟨by rw [hsame]; exact h.pending, fun hun => by rw [hsame]; exact h.unreflected hun⟩

/-- As long as a change is not published a task is pending, and whenever a task runs the view becomes
the recompute of the facts held then. -/
theorem debounce_loses_nothing (h : (system env).Reachable s) :
    (s.unreflected = true → s.net.flushScheduled = true ∧ s.pending = 1) ∧
    ∀ p, 0 < s.pending → ∃ s', Debounced.step env s (.flush p) = some s' ∧
      s'.net.directory = (s.net.directory.recompute env.net env.encode s.net.cfg s.net.registry s.net.leases
        p.keys p.now p.nowMs).1 ∧
      s'.net.directory.published = { (s'.net.directory.derive env.net s.net.cfg s.net.registry s.net.leases
        p.keys).normalize with gen := s'.net.directory.published.gen } ∧
      s'.unreflected = false ∧ s'.pending = 0 := by
  have hkept : s.Kept := by
    refine h.invariant (P := Kept) ?_ fun s op s' hs hstep => hs.step hstep
    rintro s ⟨hflag, hpending, hun⟩
    refine ⟨by rw [hflag, hpending]; rfl, fun hun' => ?_⟩
    rw [hun] at hun'
    cases hun'
  refine ⟨fun hun => ?_, fun p hpos => ?_⟩
  · have hflag := hkept.unreflected hun
    refine ⟨hflag, ?_⟩
    rw [hkept.pending, hflag]
    rfl
  · have hpending := hkept.pending
    have hone : s.pending = 1 := by
      split_ifs at hpending <;> omega
    have hdirectory : (s.net.perform env (.flush p)).directory = (s.net.directory.recompute env.net env.encode
        s.net.cfg s.net.registry s.net.leases p.keys p.now p.nowMs).1 := NetState.publish_directory ..
    refine ⟨⟨s.net.perform env (.flush p), s.pending - 1, false⟩, ?_, hdirectory, ?_, rfl, ?_⟩
    · have hflush : (LockedOp.flush p).isFlush := rfl
      unfold Debounced.step
      rw [if_pos hflush, if_neg (by omega)]
    · simp only [hdirectory]
      exact Directory.recompute_published rfl
    · simp [hone]

namespace TwoReports

def start : Debounced := ⟨NetworkExample.start, 0, false⟩

def alive (node nowMs : Nat) : LockedOp :=
  .heartbeat node .client ⟨0, 0, [], [], none, 0, none⟩ ⟨[], nowMs / 1000, nowMs, true⟩

end TwoReports

open TwoReports in
/-- Of two members that come online a millisecond apart the second one is left to the task. -/
theorem debounce_loses_nothing_second : ∃ s,
    (system .byteText).run start [alive 1 10000, alive 2 10001] = some s ∧ s.unreflected = true ∧
      s.net.flushScheduled = true ∧ s.pending = 1 := by
  have hrun : ((system .byteText).run start [alive 1 10000, alive 2 10001]).map Debounced.unreflected =
      some true := by decide +kernel
  obtain ⟨s, hrun, hun⟩ := Option.map_eq_some_iff.mp hrun
  have hreachable : (system .byteText).Reachable s :=
    TransitionSystem.Reachable.of_run (.of_initial ⟨rfl, rfl, rfl⟩) hrun
  exact ⟨s, hrun, hun, (debounce_loses_nothing hreachable).1 hun⟩

end Debounced

end Nqvpn
