import Nqvpn.View

/-!
# What the coordinator puts on its links

Relative to the log of published snapshots, everything in the delta ring, in a
push queue or on the wire is either a log entry or the difference of two
neighbouring ones. Every operation under the network lock keeps this, and a
publish extends the log by one entry.
-/

namespace Nqvpn

open Versioned List

/-- `l'` is `l` with pushes of `ps` queued behind what it held: all of them
unless the connection was closed. -/
structure Link.Extends (l l' : Link) (ps : List Push) : Prop where
  peer : l'.peer = l.peer
  wire : l'.wire = l.wire
  writing : l'.writing = l.writing
  queue : ∃ sent, sent <+: ps ∧ l'.queue = l.queue ++ sent ∧ (l'.closed = none → sent = ps)
  closed : l'.closed = none → l.closed = none

namespace Link

variable (l : Link) (code : Nat) (reason : String)

theorem Extends.refl : l.Extends l [] :=
  ⟨rfl, rfl, rfl, ⟨[], prefix_rfl, by simp, fun _ => rfl⟩, id⟩

theorem trySend_eq_some {l l' : Link} {p : Push} (h : l.trySend p = some l') :
    l' = { l with queue := l.queue ++ [p] } := by
  unfold trySend at h
  split_ifs at h
  exact (Option.some.inj h).symm

theorem sendAll_spec (ps : List Push) (l : Link) :
    ∃ sent, sent <+: ps ∧ (l.sendAll ps).1 = { l with queue := l.queue ++ sent } ∧
      ((l.sendAll ps).2 → sent = ps) := by
  induction ps generalizing l with
  | nil => exact ⟨[], prefix_rfl, by simp [sendAll], fun _ => rfl⟩
  | cons p ps ih =>
    cases hsend : l.trySend p with
    | none => exact ⟨[], nil_prefix, by simp [sendAll, hsend], by simp [sendAll, hsend]⟩
    | some l' =>
      obtain ⟨sent, hpre, hlink, hall⟩ := ih l'
      have hl' := trySend_eq_some hsend
      refine ⟨p :: sent, cons_prefix_cons.mpr ⟨rfl, hpre⟩, ?_, ?_⟩
      · simp only [sendAll, hsend]
        rw [hlink, hl']
        simp
      · intro hok
        rw [hall (by simpa only [sendAll, hsend] using hok)]

@[simp] theorem close_queue :
    (l.close code reason).queue = l.queue := rfl

@[simp] theorem close_wire :
    (l.close code reason).wire = l.wire := rfl

theorem close_closed_ne_none :
    (l.close code reason).closed ≠ none := by
  cases h : l.closed <;> simp [close, h]

end Link

theorem Session.catchUp_extends (s : Session) (ps : List Push) :
    s.link.Extends (s.catchUp ps).link ps := by
  obtain ⟨sent, hpre, hlink, hall⟩ := s.link.sendAll_spec ps
  unfold Session.catchUp
  cases hs : s.link.sendAll ps with
  | mk link ok =>
    rw [hs] at hlink hall
    subst hlink
    cases ok with
    | true => exact ⟨rfl, rfl, rfl, ⟨sent, hpre, rfl, fun _ => hall rfl⟩, fun h => h⟩
    | false =>
      have hclosed := Link.close_closed_ne_none { s.link with queue := s.link.queue ++ sent }
        closeOverflow "push queue overflow"
      exact ⟨rfl, rfl, rfl, ⟨sent, hpre, rfl, fun h => absurd h hclosed⟩,
        fun h => absurd h hclosed⟩

theorem Session.pushDelta_extends (s : Session) (d : Delta) :
    s.link.Extends (s.pushDelta d).link [] ∨ s.link.Extends (s.pushDelta d).link [.delta d] := by
  unfold Session.pushDelta
  split_ifs
  · exact .inl (Link.Extends.refl _)
  · cases hsend : s.link.trySend (.delta d) with
    | some link =>
      have hlink := Link.trySend_eq_some hsend
      subst hlink
      exact .inr ⟨rfl, rfl, rfl, ⟨[.delta d], prefix_rfl, rfl, fun _ => rfl⟩, fun h => h⟩
    | none =>
      have hclosed := s.link.close_closed_ne_none closeOverflow "push queue overflow"
      exact .inl ⟨rfl, rfl, rfl, ⟨[], prefix_rfl, by simp [Session.overflow], fun _ => rfl⟩,
        fun h => absurd h hclosed⟩

variable (log : List Snapshot)

def Link.Carries (l : Link) : Prop :=
  ∀ p ∈ l.wire ++ l.queue, snapshotVersioned.Known log p.toMessage

def Link.NoClose (l : Link) : Prop := ∀ reason, Push.close reason ∉ l.queue

namespace Link.Carries

variable {log : List Snapshot} {l l' : Link}

theorem cons {s : Snapshot} (h : l.Carries log) : l.Carries (s :: log) :=
  fun p hp => (h p hp).cons

theorem of_extends {ps : List Push} (h : l.Carries log) (hext : l.Extends l' ps)
    (hps : ∀ p ∈ ps, snapshotVersioned.Known log p.toMessage) : l'.Carries log := by
  obtain ⟨sent, hpre, hqueue, -⟩ := hext.queue
  intro p hp
  rw [hext.wire, hqueue, ← append_assoc, mem_append] at hp
  exact hp.elim (h p) (fun hsent => hps p (hpre.subset hsent))

theorem shut {s : Session} (h : s.link.Carries log) (push : String) (code : Nat)
    (reason : String) : (s.shut push code reason).link.Carries log := by
  intro p hp
  unfold Session.shut at hp
  cases hsend : s.link.trySend (.close push) with
  | none => exact h p (by simpa [hsend] using hp)
  | some link =>
    rw [hsend, Option.getD_some, trySend_eq_some hsend] at hp
    simp only [close_wire, close_queue, mem_append, mem_singleton] at hp
    rcases hp with hwire | hqueue | rfl
    · exact h p (mem_append.mpr (.inl hwire))
    · exact h p (mem_append.mpr (.inr hqueue))
    · trivial

end Link.Carries

theorem Link.NoClose.of_extends {l l' : Link} {ps : List Push} (h : l.NoClose) (hext : l.Extends l' ps)
    (hps : ∀ reason, Push.close reason ∉ ps) : l'.NoClose := by
  obtain ⟨sent, hpre, hqueue, -⟩ := hext.queue
  intro reason hmem
  rw [hqueue, mem_append] at hmem
  exact hmem.elim (h reason) (fun hsent => hps reason (hpre.subset hsent))

/-- The coordinator's side of the invariant: the log ends in what is published,
and the ring and every link carry only what the log explains. -/
structure NetState.Sound (log : List Snapshot) (ns : NetState) : Prop where
  wellFormed : snapshotVersioned.WellFormedLog log
  head : log.head? = some ns.directory.published
  gen : ns.directory.gen = ns.directory.published.gen
  ring : ∀ d ∈ ns.directory.ring, snapshotVersioned.Known log (.delta d)
  registered : ∀ (node : NodeId) (s : Session),
    ns.sessions[node]? = some s → s.link.Carries log ∧ s.link.NoClose
  retired : ∀ s ∈ ns.retired, s.link.Carries log

def recorded (ns : NetState) : List Snapshot :=
  if log.head? = some ns.directory.published then log else ns.directory.published :: log

namespace NetState.Sound

variable {log : List Snapshot} {ns ns' : NetState}

theorem close_not_mem_catchUpPushes (ns : NetState) (haveGen : Nat) (reason : String) :
    Push.close reason ∉ ns.catchUpPushes haveGen := by
  unfold NetState.catchUpPushes
  cases ns.directory.deltasSince haveGen <;> simp

variable (h : ns.Sound log)

include h

theorem log_eq : ∃ rest, log = ns.directory.published :: rest := by
  obtain ⟨rest, hrest⟩ := head?_eq_some_iff.mp h.head
  exact ⟨rest, hrest⟩

theorem recorded_eq : recorded log ns = log := if_pos h.head

theorem of_sameView (ns' : NetState)
    (hview : Directory.SameView ns.directory ns'.directory)
    (hsessions : ns'.sessions = ns.sessions) (hretired : ns'.retired = ns.retired) :
    ns'.Sound log where
  wellFormed := h.wellFormed
  head := by rw [hview.published]; exact h.head
  gen := by rw [hview.gen, hview.published]; exact h.gen
  ring := by rw [hview.ring]; exact h.ring
  registered := by rw [hsessions]; exact h.registered
  retired := by rw [hretired]; exact h.retired

theorem dropSession (node : NodeId) (finish : Session → Session)
    (hfinish : ∀ s, s.link.Carries log → (finish s).link.Carries log) :
    (ns.dropSession node finish).Sound log := by
  unfold NetState.dropSession
  cases hs : ns.sessions[node]? with
  | none => exact h
  | some s =>
    refine { h with registered := ?_, retired := ?_ }
    · intro node' s' hs'
      rw [Std.ExtTreeMap.getElem?_erase] at hs'
      split_ifs at hs'
      exact h.registered node' s' hs'
    · intro s' hs'
      rcases mem_cons.mp hs' with rfl | hold
      · exact hfinish s (h.registered node s hs).1
      · exact h.retired s' hold

theorem closeSessionWith (node : NodeId) (code : Nat) (reason : String) :
    (ns.closeSessionWith node code reason).Sound log :=
  h.dropSession node _ fun _ hs => hs.shut reason code reason

theorem insertSession (node : NodeId) {s : Session}
    (hcarries : s.link.Carries log) (hclose : s.link.NoClose) :
    ({ ns with sessions := ns.sessions.insert node s } : NetState).Sound log := by
  refine { h with registered := ?_ }
  intro node' s' hs'
  rw [Std.ExtTreeMap.getElem?_insert] at hs'
  split_ifs at hs'
  · cases hs'
    exact ⟨hcarries, hclose⟩
  · exact h.registered node' s' hs'

theorem catchUpPushes_known (haveGen : Nat) :
    ∀ p ∈ ns.catchUpPushes haveGen, snapshotVersioned.Known log p.toMessage := by
  intro p hp
  unfold NetState.catchUpPushes at hp
  cases hchain : ns.directory.deltasSince haveGen with
  | some chain =>
    rw [hchain] at hp
    obtain ⟨d, hd, rfl⟩ := mem_map.mp hp
    exact h.ring d ((Directory.deltasSince_eq_some hchain).1 d hd)
  | none =>
    rw [hchain, mem_singleton] at hp
    subst hp
    exact mem_of_mem_head? h.head

theorem catchUp (node : NodeId) (haveGen : Nat) :
    (ns.catchUp node haveGen).Sound log := by
  unfold NetState.catchUp
  cases hs : ns.sessions[node]? with
  | none => exact h
  | some s =>
    obtain ⟨hcarries, hclose⟩ := h.registered node s hs
    have hext := s.catchUp_extends (ns.catchUpPushes haveGen)
    exact h.insertSession node (hcarries.of_extends hext (h.catchUpPushes_known haveGen))
      (hclose.of_extends hext (close_not_mem_catchUpPushes ns haveGen))

theorem broadcastDelta {d : Delta}
    (hd : snapshotVersioned.Known log (.delta d)) : (ns.broadcastDelta d).Sound log := by
  refine { h with registered := ?_ }
  intro node s hs
  change (ns.sessions.map fun _ s => s.pushDelta d)[node]? = some s at hs
  rw [Std.ExtTreeMap.getElem?_map] at hs
  obtain ⟨s₀, hs₀, rfl⟩ := Option.map_eq_some_iff.mp hs
  obtain ⟨hcarries, hclose⟩ := h.registered node s₀ hs₀
  rcases s₀.pushDelta_extends d with hext | hext
  · exact ⟨hcarries.of_extends hext (by simp), hclose.of_extends hext (by simp)⟩
  · refine ⟨hcarries.of_extends hext ?_, hclose.of_extends hext (by simp)⟩
    intro p hp
    rw [mem_singleton.mp hp]
    exact hd

theorem advance (ns' : NetState) {delta : Delta} (hview : ns'.sessions = ns.sessions)
    (hretired : ns'.retired = ns.retired)
    (hadv : Directory.Advanced ns.directory ns'.directory delta) :
    ns'.Sound (ns'.directory.published :: log) ∧
      snapshotVersioned.Known (ns'.directory.published :: log) (.delta delta) := by
  obtain ⟨rest, hlog⟩ := h.log_eq
  have hgen : ns.directory.published.gen < ns'.directory.published.gen := by
    rw [← h.gen, ← hadv.gen]
    exact hadv.gen_lt
  have hall : ∀ t ∈ log, t.gen < ns'.directory.published.gen := by
    intro t ht
    have hwf := h.wellFormed
    rw [hlog] at ht hwf
    exact lt_of_le_of_lt (hwf.gen_le_head ht) hgen
  have hdelta : snapshotVersioned.Known (ns'.directory.published :: log) (.delta delta) :=
    ⟨ns.directory.published, ns'.directory.published, ⟨[], rest, by rw [hlog]; rfl⟩, hadv.delta_eq⟩
  refine ⟨⟨h.wellFormed.cons hall hadv.normal (Nat.zero_lt_of_lt hgen), rfl, hadv.gen, ?_, ?_, ?_⟩,
    hdelta⟩
  · intro d hd
    rw [hadv.ring] at hd
    rcases Directory.mem_pushRing hd with hold | rfl
    · exact (h.ring d hold).cons
    · exact hdelta
  · intro node s hs
    rw [hview] at hs
    obtain ⟨hcarries, hclose⟩ := h.registered node s hs
    exact ⟨hcarries.cons, hclose⟩
  · intro s hs
    rw [hretired] at hs
    exact (h.retired s hs).cons

variable (text : IpNetText) (encode : Snapshot → List UInt8)

theorem publish (keys : List KeyInfo) (now nowMs : Nat) (saveOk : Bool) :
    (ns.publish text encode keys now nowMs saveOk).Sound
      (recorded log (ns.publish text encode keys now nowMs saveOk)) := by
  unfold NetState.publish
  cases hr : ns.directory.recompute text encode ns.cfg ns.registry ns.leases keys now nowMs with
  | mk d r =>
    rcases Directory.recompute_cases hr with ⟨rfl, hsame⟩ | ⟨delta, rfl, hadv⟩
    · have hsound : ({ ns with lastPublishMs := nowMs, directory := d } : NetState).Sound log :=
        h.of_sameView _ hsame rfl rfl
      simp only [hr]
      rw [hsound.recorded_eq]
      exact hsound
    · simp only [hr]
      obtain ⟨hsound, hdelta⟩ := h.advance { ns with
        lastPublishMs := nowMs
        directory := d
        registry := (ns.registry.noteGen d.gen).1
        stored :=
          if (ns.registry.noteGen d.gen).2 && saveOk then
            { ns.stored with registry := some (ns.registry.noteGen d.gen).1 }
          else ns.stored } rfl rfl hadv
      have hne : log.head? ≠ some d.published := by
        rw [h.head]
        intro heq
        have hlt := hadv.gen_lt
        rw [hadv.gen, ← Option.some.inj heq, h.gen] at hlt
        exact lt_irrefl _ hlt
      rw [recorded, if_neg (by exact hne)]
      exact hsound.broadcastDelta hdelta

theorem applyRefresh (node : NodeId) (exp loginGen nowMs : Nat) :
    (ns.applyRefresh node exp loginGen nowMs).Sound log := by
  refine { h with registered := ?_ }
  intro node' s' hs'
  change (ns.sessions.alter node _)[node']? = some s' at hs'
  rw [Std.ExtTreeMap.getElem?_alter] at hs'
  split_ifs at hs' with heq
  · obtain ⟨s, hs, rfl⟩ := Option.map_eq_some_iff.mp hs'
    exact h.registered node s hs
  · exact h.registered node' s' hs'

end NetState.Sound

theorem recorded_congr {log : List Snapshot} {ns ns' : NetState}
    (h : ns'.directory = ns.directory) : recorded log ns' = recorded log ns := by
  rw [recorded, recorded, h]

def NetState.SoundAfter (ns : NetState) : Prop := ns.Sound (recorded log ns)

namespace NetState

theorem catchUp_directory (ns : NetState) (node : NodeId) (haveGen : Nat) :
    (ns.catchUp node haveGen).directory = ns.directory := by
  unfold catchUp
  split <;> rfl

section After

variable {log : List Snapshot} {ns : NetState}

theorem Sound.after (h : ns.Sound log) : ns.SoundAfter log := by
  rw [SoundAfter, h.recorded_eq]
  exact h

theorem SoundAfter.catchUp (h : ns.SoundAfter log) (node : NodeId) (haveGen : Nat) :
    (ns.catchUp node haveGen).SoundAfter log := by
  rw [SoundAfter, recorded_congr (ns.catchUp_directory node haveGen)]
  exact Sound.catchUp h node haveGen

theorem SoundAfter.answerHeartbeat (h : ns.SoundAfter log) (node : NodeId) (hb : Heartbeat) (now : Nat) :
    (ns.answerHeartbeat node hb now).SoundAfter log := by
  unfold NetState.answerHeartbeat
  split_ifs
  · exact h
  · exact h.catchUp node hb.gen
  · exact h.catchUp node 0
  · exact h

theorem Sound.foldl {α : Type} (f : NetState → α → NetState)
    (hf : ∀ (ns : NetState) (a : α), ns.Sound log → (f ns a).Sound log) (l : List α)
    (h : ns.Sound log) : (l.foldl f ns).Sound log := by
  induction l generalizing ns with
  | nil => exact h
  | cons a l ih => exact ih (hf ns a h)

variable (text : IpNetText) (encode : Snapshot → List UInt8) (keys : List KeyInfo)
  (now nowMs : Nat) (saveOk : Bool) (h : ns.Sound log)

include h

theorem Sound.publishSoon :
    (ns.publishSoon text encode keys now nowMs saveOk).1.SoundAfter log := by
  unfold NetState.publishSoon
  simp only
  split_ifs
  · exact h.publish text encode keys now nowMs saveOk
  · exact h.after
  · exact (h.of_sameView { ns with flushScheduled := true } ⟨rfl, rfl, rfl, rfl⟩ rfl rfl).after

theorem Sound.flush :
    (ns.flush text encode keys now nowMs saveOk).SoundAfter log :=
  (h.of_sameView { ns with flushScheduled := false } ⟨rfl, rfl, rfl, rfl⟩ rfl rfl).publish
    text encode keys now nowMs saveOk

theorem Sound.register (s : Session) (haveGen : Nat)
    (hcarries : s.link.Carries log) (hclose : s.link.NoClose) :
    (ns.register text encode s haveGen keys now nowMs saveOk).SoundAfter log := by
  have hdrop := h.dropSession s.nodeId id (fun _ hs => hs)
  have hins := (hdrop.insertSession s.nodeId hcarries hclose).of_sameView
    { ns.dropSession s.nodeId id with
      sessions := (ns.dropSession s.nodeId id).sessions.insert s.nodeId s
      leases := ((ns.dropSession s.nodeId id).leases.seen s.nodeId nowMs).1 }
    ⟨rfl, rfl, rfl, rfl⟩ rfl rfl
  have hpub := hins.publish text encode keys now nowMs saveOk
  unfold NetState.register
  simp only
  split_ifs
  · exact hpub
  · exact SoundAfter.catchUp hpub s.nodeId haveGen

theorem Sound.teardown (node : NodeId) (id : Nat) :
    (ns.teardown text encode node id keys now nowMs saveOk).SoundAfter log := by
  unfold NetState.teardown
  split_ifs
  · have hdrop := h.dropSession node (fun s => s) (fun _ hs => hs)
    refine Sound.publish ?_ text encode keys now nowMs saveOk
    exact hdrop.of_sameView _ ⟨rfl, rfl, rfl, rfl⟩ rfl rfl
  · exact h.after

theorem Sound.onHeartbeat (node : NodeId) (role : Role) (hb : Heartbeat) :
    (ns.onHeartbeat text encode node role hb keys now nowMs saveOk).SoundAfter log := by
  have hfold := h.of_sameView _ (foldHeartbeat_sameView ns node role hb now nowMs) rfl rfl
  refine SoundAfter.answerHeartbeat ?_ node hb now
  split_ifs
  · exact hfold.publishSoon text encode keys now nowMs saveOk
  · exact hfold.after

theorem Sound.onExitReadiness (node : NodeId) (er : ExitReadiness) :
    (ns.onExitReadiness text encode node er keys now nowMs saveOk).SoundAfter log := by
  have hset := h.of_sameView { ns with directory := { ns.directory with
    exitReadiness := ns.directory.exitReadiness.insert node er } } ⟨rfl, rfl, rfl, rfl⟩ rfl rfl
  unfold NetState.onExitReadiness
  simp only
  split_ifs
  · exact hset.publishSoon text encode keys now nowMs saveOk
  · exact hset.after

theorem Sound.onResync (node : NodeId) (haveGen : Nat) :
    (ns.onResync node haveGen now).SoundAfter log := by
  unfold NetState.onResync
  split_ifs
  · exact h.after
  · exact h.after.catchUp node haveGen

theorem Sound.sweep :
    (ns.sweep text encode keys now nowMs saveOk).SoundAfter log := by
  unfold NetState.sweep
  refine Sound.publish (Sound.foldl _ (fun ns node hs => ?_) _
    (Sound.foldl _ (fun ns node hs => ?_) _ ?_)) text encode keys now nowMs saveOk
  · exact hs.closeSessionWith node closeExpired "credential expired"
  · exact (hs.of_sameView { ns with directory := { ns.directory with
      reportedMtu := ns.directory.reportedMtu.erase node } } ⟨rfl, rfl, rfl, rfl⟩ rfl
      rfl).closeSessionWith node closeTimeout "keepalive timeout"
  · exact h.of_sameView _ ⟨rfl, rfl, rfl, rfl⟩ rfl rfl

end After

end NetState

end Nqvpn
