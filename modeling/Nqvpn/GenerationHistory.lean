import Nqvpn.HighWaterMark
import Nqvpn.JoinCases
import Nqvpn.TransitionSystem

/-!
# The generations of a network over its whole history

A network is served by one process after another. Each starts from the rows its
predecessor left and publishes views under generations, whose mark in the registry
row is saved only when a generation passes it. A crash may fall inside any operation:
what the operation has stored by then stays, and everything in memory is gone.
-/

namespace Nqvpn

open Fallible DurableRows HighWaterMark Registry Option List

namespace NetState

def marks (ns : NetState) : HighWaterMark :=
  ⟨ns.directory.gen, ns.registry.genHwm, (ns.stored.registry.map (·.genHwm)).getD 0⟩

/-- The marks and the view are the same. -/
structure SameMarks (ns ns' : NetState) : Prop where
  marks : ns'.marks = ns.marks
  published : ns'.directory.published = ns.directory.published

variable {base ns ns' ns'' : NetState} {nowMs : Nat} {commits saved : Bool} {reg : Registry}

theorem Delivers.sameMarks (h : ns.Delivers ns') : ns.SameMarks ns' := by
  rw [h.rest]
  exact ⟨rfl, rfl⟩

theorem Trims.sameMarks (h : ns.Trims ns') : ns.SameMarks ns' := by
  refine ⟨?_, h.view.published⟩
  unfold NetState.marks
  rw [h.view.gen, h.registry, h.stored]

def nextGen (ns : NetState) (nowMs : Nat) : Nat := max (ns.directory.gen + 1) nowMs

/-- What a publish with these marks does to them: nothing, or it mints a generation. -/
structure Mints (ns ns' : NetState) (nowMs : Nat) (saved : Bool) : Prop where
  marks : ns'.marks = ns.marks.mint genPersistStep (ns.nextGen nowMs) saved
  published : ns'.directory.published.gen = ns.nextGen nowMs

theorem Mints.of_sameMarks (h : ns.Mints ns' nowMs saved) (hs : ns'.SameMarks ns'') : ns.Mints ns'' nowMs saved :=
  ⟨hs.marks.trans h.marks, by rw [hs.published, h.published]⟩

theorem publish_marks (text : IpNetText) (encode : Snapshot → List UInt8) (ns : NetState)
    (keys : List KeyInfo) (now nowMs : Nat) (saveOk : Bool) :
    ns.SameMarks (ns.publish text encode keys now nowMs saveOk) ∨
      ns.Mints (ns.publish text encode keys now nowMs saveOk) nowMs saveOk := by
  simp only [publish, Directory.recompute]
  split_ifs
  · exact .inl ⟨rfl, rfl⟩
  · right
    refine ⟨?_, rfl⟩
    by_cases hmark : ns.registry.genHwm ≤ ns.nextGen nowMs
    · rw [HighWaterMark.mint_of_le hmark]
      have hnote : ns.registry.noteGen (ns.nextGen nowMs) =
          ({ ns.registry with genHwm := ns.nextGen nowMs + genPersistStep }, true) := if_pos hmark
      cases saveOk
      all_goals
        simp only [broadcastDelta, Directory.advance, Directory.resolveOwners]
        simp only [nextGen] at hnote
        simp [nextGen, hnote, marks]
    · have hlt : ns.nextGen nowMs < ns.marks.mark := not_le.mp hmark
      rw [HighWaterMark.mint_of_lt hlt]
      have hnote : ns.registry.noteGen (ns.nextGen nowMs) = (ns.registry, false) := if_neg hmark
      simp only [broadcastDelta, Directory.advance, Directory.resolveOwners]
      simp only [nextGen] at hnote
      simp [nextGen, hnote, marks]

/-- What an operation does to the marks: the registry row is written or read back, and
perhaps a generation is minted. -/
def Proceeds (ns ns' : NetState) (commits : Bool) (nowMs : Nat) (saved : Bool) : Prop :=
  (ns.marks.Books ns'.marks ∧ ns'.directory.published = ns.directory.published) ∨
    ∃ base : NetState, base.marks = (if commits then ns.marks.commit else ns.marks) ∧
      base.Mints ns' nowMs saved

theorem SameMarks.proceeds (h : ns.SameMarks ns') (commits : Bool) (nowMs : Nat) (saved : Bool) : ns.Proceeds ns' commits nowMs saved :=
  .inl ⟨.inl h.marks, h.published⟩

theorem Proceeds.of_sameMarks (h : ns.Proceeds ns' commits nowMs saved) (hs : ns'.SameMarks ns'') :
    ns.Proceeds ns'' commits nowMs saved := by
  rcases h with ⟨hbooks, hpub⟩ | ⟨base, hbase, hmints⟩
  · exact .inl ⟨hs.marks ▸ hbooks, hs.published.trans hpub⟩
  · exact .inr ⟨base, hbase, hmints.of_sameMarks hs⟩

theorem proceeds_publish (hmarks : base.marks = if commits then ns.marks.commit else ns.marks)
    (hpub : base.directory.published = ns.directory.published) (text : IpNetText)
    (encode : Snapshot → List UInt8) (keys : List KeyInfo) (now nowMs : Nat) (saveOk : Bool) :
    ns.Proceeds (base.publish text encode keys now nowMs saveOk) commits nowMs saveOk := by
  rcases publish_marks text encode base keys now nowMs saveOk with hsame | hmints
  · refine .inl ⟨?_, hsame.published.trans hpub⟩
    rw [hsame.marks, hmarks]
    cases commits
    · exact .inl rfl
    · exact .inr (.inl rfl)
  · exact .inr ⟨base, hmarks, hmints⟩

theorem SameMarks.publish (h : ns.SameMarks base) (text : IpNetText) (encode : Snapshot → List UInt8)
    (keys : List KeyInfo) (now nowMs : Nat) (saveOk : Bool) :
    ns.Proceeds (base.publish text encode keys now nowMs saveOk) false nowMs saveOk :=
  proceeds_publish h.marks h.published text encode keys now nowMs saveOk

theorem commit_marks (ns : NetState) (saveOk loadOk : Bool) :
    (ns.commit saveOk loadOk).1.directory = ns.directory ∧
      ((ns.commit saveOk loadOk).2 ∧ (ns.commit saveOk loadOk).1.marks = ns.marks.commit ∨
        (ns.commit saveOk loadOk).2 = false ∧ ns.marks.Books (ns.commit saveOk loadOk).1.marks) := by
  obtain ⟨cfg, registry, directory, leases, sessions, retired, startedAt, deleted, lastPublishMs,
    flushScheduled, ⟨config, stored⟩⟩ := ns
  cases saveOk with
  | true => exact ⟨rfl, .inl ⟨rfl, rfl⟩⟩
  | false =>
    cases stored with
    | none => exact ⟨rfl, .inr ⟨rfl, .inl rfl⟩⟩
    | some reg =>
      cases loadOk with
      | false => exact ⟨rfl, .inr ⟨rfl, .inl rfl⟩⟩
      | true => exact ⟨rfl, .inr ⟨rfl, .inr (.inr rfl)⟩⟩

theorem marks_registry (h : reg.genHwm = ns.registry.genHwm) :
    { ns with registry := reg }.marks = ns.marks := by
  simp [marks, h]

theorem Plans.genHwm {env : CoordText} {name presented : String} {req : JoinRequest} {peerIp : String}
    {t : Clock} {plan : JoinPlan} {granted : Granted} {relayAddr : Option String}
    (h : ns.Plans env name presented req peerIp t plan granted reg relayAddr) :
    plan.registry.genHwm = ns.registry.genHwm := by
  obtain ⟨reclaim, reg₁, -, h4, h6⟩ := h.allots.grants
  have hplan : plan.registry.genHwm = reg.genHwm :=
    congrArg (fun p : Registry × MemberRecord => p.1.genHwm) h.written
  rw [hplan, h6.frame.2.2.1, h4.frame.2.2.1]

end NetState

namespace LockedOp

def commits (ns : NetState) : LockedOp → Bool
  | .join _ _ _ _ _ _ _ | .importConfig _ _ _ => true
  | .admin _ _ (.rotateMember name _) | .admin _ _ (.deleteMember name)
  | .admin _ _ (.setDisabled name _) => (ns.registry.idOf name).isSome
  | _ => false

end LockedOp

namespace NetState

variable {env : CoordText}

theorem proposal_registry {ns : NetState} {keys : List KeyInfo} {r : AdminReading} {op : NetworkOp}
    {e : Edit NetworkConfig Registry} (h : ns.proposal env r op = .ok e) :
    e.snd.isSome = (LockedOp.admin keys r op).commits ns ∧
      ∀ reg, e.snd = some reg → reg.genHwm = ns.registry.genHwm := by
  cases proposal_eq_ok h with
  | updateNetwork | createMember | updateMember => exact ⟨rfl, fun reg hreg => absurd hreg (by simp)⟩
  | rotateMember | deleteMember =>
    refine ⟨isSome_map, fun reg hreg => ?_⟩
    obtain ⟨node, -, rfl⟩ := map_eq_some_iff.mp hreg
    rfl
  | setDisabled hnode =>
    refine ⟨?_, fun reg hreg => ?_⟩
    · simp [LockedOp.commits, hnode]
    · cases hreg
      rfl

variable (ns : NetState)

theorem exec_proceeds (keys : List KeyInfo) (r : AdminReading) (op : NetworkOp) :
    ns.Proceeds (ns.exec env keys r op).1 ((LockedOp.admin keys r op).commits ns) r.clock.nowMs
      r.db.mark := by
  rcases @exec_ends env keys r ns op with ⟨err, -, hexec⟩ | ⟨e, he, hends⟩
  · rw [hexec]
    exact SameMarks.proceeds ⟨rfl, rfl⟩ _ _ _
  · obtain ⟨hcommits, hgen⟩ := @proposal_registry env ns keys r op e he
    rcases hends with ⟨hok, hexec⟩ | ⟨hfail, err, hexec⟩
    · rw [hexec]
      have hmarks : (ns.withRows (ns.written r e).1).marks =
          if (LockedOp.admin keys r op).commits ns then ns.marks.commit else ns.marks := by
        rw [← hcommits]
        have hrows := Rows.write_ok hok
        cases hsnd : e.snd with
        | none =>
          rw [hsnd] at hrows
          simp only [marks, withRows, written, hrows]
          rfl
        | some reg =>
          rw [hsnd] at hrows
          simp [marks, withRows, written, hrows, HighWaterMark.commit, hgen reg hsnd]
      rcases finish_cases env keys r ns (ns.withRows (ns.written r e).1) op with hdone | ⟨base, htrims, hdone⟩
      · rw [hdone]
        refine .inl ⟨?_, rfl⟩
        rw [hmarks]
        split_ifs
        · exact .inr (.inl rfl)
        · exact .inl rfl
      · rw [hdone]
        exact proceeds_publish (htrims.sameMarks.marks.trans hmarks) htrims.sameMarks.published _ _ _ _ _ _
    · rw [hexec]
      refine .inl ⟨?_, rfl⟩
      obtain ⟨hstored, hsnd⟩ := Rows.write_failed hfail
      have hmarks (hwm : Nat) (h : (ns.written r e).1.snd.genHwm = hwm) :
          (ns.withRows (ns.written r e).1).marks =
            ⟨ns.directory.gen, hwm, (ns.stored.registry.map (·.genHwm)).getD 0⟩ := by
        simp only [marks, withRows, h]
        rw [show (ns.written r e).1.storedSnd = ns.stored.registry from hstored]
      rcases hsnd with hsame | hedit | hreload
      · exact .inl (hmarks _ (congrArg genHwm hsame))
      · exact .inl (hmarks _ (hgen _ hedit))
      · refine .inr (.inr ((hmarks _ rfl).trans ?_))
        simp [HighWaterMark.reload, marks, show ns.stored.registry = some (ns.written r e).1.snd from hreload]

theorem join_proceeds (name presented : String) (req : JoinRequest) (peerIp : String)
    (signing : Signing) (t : Clock) (db : DbOutcome) :
    ns.Proceeds (ns.join env name presented req peerIp signing t db).1 true t.nowMs db.mark := by
  unfold join
  cases hplan : ns.joinPlan env name presented req peerIp t with
  | error err => exact SameMarks.proceeds ⟨rfl, rfl⟩ _ _ _
  | ok plan =>
    obtain ⟨granted, reg, relayAddr, hplans⟩ := joinPlan_eq_ok hplan
    have hmarks := marks_registry hplans.genHwm
    obtain ⟨hdirectory, ⟨hok, hcommit⟩ | ⟨hfail, hbooks⟩⟩ :=
      commit_marks { ns with registry := plan.registry } db.registry db.reload
    · simp only [hok, if_true]
      have htrims := (closeStale_trims
        ({ ns with registry := plan.registry }.commit db.registry db.reload).1 plan name peerIp).sameMarks
      refine proceeds_publish ?_ ?_ _ _ _ _ _ _
      · rw [htrims.marks, hcommit, hmarks, if_pos rfl]
      · rw [htrims.published, hdirectory]
    · simp only [hfail, Bool.false_eq_true, if_false]
      exact .inl ⟨hmarks ▸ hbooks, by rw [hdirectory]⟩

theorem importNetwork_proceeds (keys : List KeyInfo) (r : AdminReading) (cfg : NetworkConfig) :
    ns.Proceeds (ns.importNetwork env keys r cfg).1 true r.clock.nowMs r.db.mark := by
  unfold importNetwork
  split
  · exact SameMarks.proceeds ⟨rfl, rfl⟩ _ _ _
  · rename_i cfg' _
    obtain ⟨base, htrims, happly⟩ := applyImport_cases env keys r ns cfg'
      (importedRegistry (some ns.cfg) cfg' ns.registry r.clock.now)
    rw [happly]
    have hmarks : base.marks = if true then ns.marks.commit else ns.marks := htrims.sameMarks.marks
    exact proceeds_publish hmarks htrims.sameMarks.published _ _ _ _ _ _

theorem sameMarks_of_rows (hrows : base.rows = ns.rows) (hview : ns.directory.SameView base.directory) :
    ns.SameMarks base := by
  obtain ⟨-, hreg, -, hstored⟩ := Rows.mk.inj hrows
  refine ⟨?_, hview.published⟩
  unfold NetState.marks
  rw [hview.gen, hreg, hstored]

theorem inside_proceeds (op : LockedOp) (hop : op.outside = false) :
    ns.Proceeds (ns.perform env op) false op.nowMs op.markSaved := by
  cases perform_inside env ns op hop with
  | quiet hdelivers hrows hview =>
    exact ((sameMarks_of_rows ns hrows hview).proceeds _ _ _).of_sameMarks hdelivers.sameMarks
  | publishes hdelivers hrows hview =>
    exact ((sameMarks_of_rows ns hrows hview).publish _ _ _ _ _ _).of_sameMarks hdelivers.sameMarks

/-- Every operation under the lock writes or reads back the registry row at most, and then
publishes at most once. -/
theorem perform_proceeds (op : LockedOp) :
    ns.Proceeds (ns.perform env op) (op.commits ns) op.nowMs op.markSaved := by
  cases op with
  | join name presented req peerIp signing t db => exact join_proceeds ns name presented req peerIp signing t db
  | register | teardown | heartbeat | exitReadiness | resync | refresh => exact inside_proceeds ns _ rfl
  | sweep p =>
    have h := (swept_trims ns p.now p.nowMs).sameMarks.publish env.net env.encode p.keys p.now p.nowMs
      p.saveOk
    exact h
  | flush p =>
    have hsame : ns.SameMarks { ns with flushScheduled := false } := ⟨rfl, rfl⟩
    exact hsame.publish _ _ _ _ _ _
  | admin keys r op => exact exec_proceeds ns keys r op
  | importConfig keys r cfg => exact importNetwork_proceeds ns keys r cfg

end NetState

/-! ### One process after another -/

/-- The process serving a network, and the views broadcast since the network exists, latest
first, each with the registry row stored when it was. -/
structure History where
  net : NetState
  broadcast : List (Snapshot × Option Registry)

inductive HistoryEvent
  | perform (op : LockedOp)
  /-- The process dies, perhaps inside an operation that has stored its rows and told
  nobody, and another one starts. -/
  | crash (during : Option LockedOp) (uuid : String) (now nowMs : Nat)

namespace History

variable (env : CoordText)

def load (stored : StoredRows) (uuid : String) (now nowMs : Nat) : Option NetState :=
  stored.config.map fun cfg =>
    NetState.new env.encode cfg (stored.registry.getD (new uuid)) stored now nowMs

def perform (h : History) (op : LockedOp) : History :=
  let ns := h.net.perform env op
  { net := ns
    broadcast := if ns.directory.gen = h.net.directory.gen then h.broadcast
      else (ns.directory.published, ns.stored.registry) :: h.broadcast }

def step (h : History) : HistoryEvent → Option History
  | .perform op => some (h.perform env op)
  | .crash during uuid now nowMs =>
    (load env (during.elim h.net (h.net.perform env)).stored uuid now nowMs).map fun net => { h with net }

end History

def historySystem (env : CoordText) : TransitionSystem History HistoryEvent where
  Initial h := h.broadcast = [] ∧
    ((∃ stored uuid now nowMs, History.load env stored uuid now nowMs = some h.net) ∨
      ∃ r cfg uuid, h.net = NetState.created env r cfg (new uuid))
  step := History.step env

namespace History

variable {env : CoordText}

theorem load_marks {stored : StoredRows} {uuid : String} {now nowMs : Nat} {ns : NetState}
    (h : load env stored uuid now nowMs = some ns) :
    ns.marks = ⟨max nowMs ((stored.registry.map (·.genHwm)).getD 0 + genPersistStep),
      (stored.registry.map (·.genHwm)).getD 0, (stored.registry.map (·.genHwm)).getD 0⟩ := by
  obtain ⟨cfg, -, rfl⟩ := map_eq_some_iff.mp h
  unfold NetState.marks
  cases hreg : stored.registry <;> simp [NetState.new, Directory.new, initialGen, new, hreg]

theorem perform_cases (h : History) (op : LockedOp) :
    (h.net.marks.Books (h.perform env op).net.marks ∧ (h.perform env op).broadcast = h.broadcast) ∨
      ∃ base : HighWaterMark,
        base = (if op.commits h.net then h.net.marks.commit else h.net.marks) ∧
        (h.perform env op).net.marks = base.mint genPersistStep (h.net.nextGen op.nowMs) op.markSaved ∧
        h.net.marks.gen < h.net.nextGen op.nowMs ∧
        ∃ view, view.gen = h.net.nextGen op.nowMs ∧
          (h.perform env op).broadcast =
            (view, (h.net.perform env op).stored.registry) :: h.broadcast := by
  have hlt : h.net.directory.gen < h.net.nextGen op.nowMs :=
    lt_of_lt_of_le (Nat.lt_succ_self _) (le_max_left _ _)
  rcases h.net.perform_proceeds op with ⟨hbooks, -⟩ | ⟨base, hbase, hmints⟩
  · refine .inl ⟨hbooks, if_pos ?_⟩
    rcases hbooks with hm | hm | hm
    all_goals exact congrArg gen hm
  · have hgen : base.nextGen op.nowMs = h.net.nextGen op.nowMs := by
      have hsame : base.directory.gen = h.net.directory.gen := by
        change base.marks.gen = _
        rw [hbase]
        split_ifs <;> rfl
      rw [NetState.nextGen, hsame, NetState.nextGen]
    refine .inr ⟨base.marks, hbase, hgen ▸ hmints.marks, hlt, _, hgen ▸ hmints.published, if_neg ?_⟩
    have hminted : (h.net.perform env op).directory.gen = h.net.nextGen op.nowMs := by
      change (h.net.perform env op).marks.gen = _
      rw [hmints.marks, hgen, mint]
      split_ifs <;> rfl
    rw [hminted]
    exact hlt.ne'

def gens (h : History) : List Nat := h.broadcast.map fun b => b.1.gen

theorem commit_covers {s : HighWaterMark} {log : List Nat} (h : s.Covers log) (commits : Bool) :
    (if commits then s.commit else s).Covers log := by
  cases commits
  · exact h
  · exact h.books (.inr (.inl rfl))
variable {h : History}

theorem perform_covers {op : LockedOp} (hcov : h.net.marks.Covers h.gens) (hsaved : op.markSaved) : (h.perform env op).net.marks.Covers (h.perform env op).gens := by
  rcases h.perform_cases op with ⟨hbooks, hlog⟩ | ⟨base, rfl, hmarks, hlt, view, hview, hlog⟩
  · rw [gens, hlog]
    exact hcov.books hbooks
  · rw [gens, hlog, hmarks, hsaved, map_cons, hview]
    refine (commit_covers hcov _).mint (Nat.succ_pos _) ?_
    split_ifs
    · exact hlt
    · exact hlt

theorem durable_le_perform (hcov : h.net.marks.Covers h.gens) (op : LockedOp) :
    h.net.marks.durable ≤ (h.net.perform env op).marks.durable := by
  rcases @perform_cases env h op with ⟨hbooks, -⟩ | ⟨base, rfl, hmarks, -⟩
  · rcases hbooks with hm | hm | hm
    · exact (congrArg durable hm).ge
    · exact hcov.agree.ge.trans (congrArg durable hm).ge
    · exact (congrArg durable hm).ge
  · refine le_trans ?_ (((commit_covers hcov _).durable_le _ _).trans
      (congrArg durable hmarks).ge)
    split_ifs
    · exact hcov.agree.ge
    · exact le_rfl

end History

def HistoryEvent.MarkSaved : HistoryEvent → Prop
  | .perform op => op.markSaved = true
  | .crash _ _ _ _ => True

theorem history_covers {env : CoordText} {h : History}
    (hr : (historySystem env).ReachableWith (fun _ e => e.MarkSaved) h) :
    h.net.marks.Covers h.gens := by
  refine hr.invariant (P := fun h => h.net.marks.Covers h.gens) ?_ ?_
  · rintro ⟨net, broadcast⟩ ⟨rfl, ⟨stored, uuid, now, nowMs, hload⟩ | ⟨r, cfg, uuid, rfl⟩⟩
    · rw [History.load_marks hload]
      exact ⟨rfl, fun g hg => absurd hg not_mem_nil, Pairwise.nil⟩
    · exact ⟨rfl, fun g hg => absurd hg not_mem_nil, Pairwise.nil⟩
  · intro h e h' hcov hsaved hstep
    cases e with
    | perform op =>
      cases hstep
      exact History.perform_covers hcov hsaved
    | crash during uuid now nowMs =>
      obtain ⟨net, hload, rfl⟩ := map_eq_some_iff.mp hstep
      have hle : h.net.marks.durable ≤ (during.elim h.net (h.net.perform env)).marks.durable := by
        cases during with
        | none => exact le_rfl
        | some op => exact History.durable_le_perform hcov op
      rw [show History.gens { h with net } = h.gens from rfl, History.load_marks hload]
      exact hcov.restart hle (le_max_right nowMs _)

/-- Over all the processes that serve a network, the generations they broadcast are
strictly increasing, so that none names two views, as long as the mark is saved before
the view it covers is broadcast. -/
theorem generations_never_reused {env : CoordText} {h : History}
    (hr : (historySystem env).ReachableWith (fun _ e => e.MarkSaved) h) :
    (h.broadcast.map fun b => b.1.gen).Pairwise (· > ·) ∧
      ∀ a ∈ h.broadcast, ∀ b ∈ h.broadcast, a.1.gen = b.1.gen → a.1 = b.1 := by
  have hinc := (history_covers hr).increasing
  refine ⟨hinc, fun a ha b hb hab => ?_⟩
  have hnodup : (h.broadcast.map fun b => b.1.gen).Nodup := hinc.imp fun h => h.ne'
  rw [inj_on_of_nodup_map hnodup ha hb hab]

/-! ### A network of no members that is served twice -/

namespace HistoryExample

def cfg : NetworkConfig := ⟨"acme", [], SettingsCfg.default, ∅, ∅⟩

def start : History where
  net := NetState.created .byteText ⟨fun _ _ => [], ⟨0, 0, 0⟩, ⟨true, true, true, true, true⟩⟩ cfg
    (new "u")
  broadcast := []

def publish (saved : Bool) : HistoryEvent := .perform (.flush ⟨[⟨"k", "", "active"⟩], 0, 0, saved⟩)

theorem start_initial : (historySystem .byteText).Initial start := ⟨rfl, .inr ⟨_, _, _, rfl⟩⟩

end HistoryExample

open HistoryExample in
theorem generations_never_reused_two_lives :
    ∃ h, (historySystem .byteText).run start [publish true, .crash none "v" 0 0, publish true] = some h ∧
      (h.broadcast.map fun b => b.1.gen) = [3002, 1001] ∧
      ∀ a ∈ h.broadcast, ∀ b ∈ h.broadcast, a.1.gen = b.1.gen → a.1 = b.1 := by
  have hgens : ((historySystem .byteText).run start
      [publish true, .crash none "v" 0 0, publish true]).map History.gens = some [3002, 1001] := by
    decide +kernel
  obtain ⟨h, hrun, hgens⟩ := map_eq_some_iff.mp hgens
  refine ⟨h, hrun, hgens, (generations_never_reused (TransitionSystem.ReachableWith.of_run
    (.initial start_initial) (fun e he _ => ?_) hrun)).2⟩
  simp only [mem_cons, not_mem_nil, or_false] at he
  rcases he with rfl | rfl | rfl
  · rfl
  · trivial
  · rfl

/-! ### When a save fails -/

namespace History

/-- Every view was broadcast when the stored registry already made a new process start
above it, whatever its clock says. -/
def DurableFirst (h : History) : Prop :=
  ∀ b ∈ h.broadcast, ∀ (uuid : String) (nowMs : Nat),
    b.1.gen < (b.2.getD (new uuid)).initialGen nowMs

/-- If the operation mints a generation: it passes the mark, which is saved, or the stored
mark still covers it. -/
def Covered (env : CoordText) (h : History) (op : LockedOp) : Prop :=
  (h.net.perform env op).directory.gen ≠ h.net.directory.gen →
    let s := if op.commits h.net then h.net.marks.commit else h.net.marks
    s.mark ≤ h.net.nextGen op.nowMs ∧ op.markSaved = true ∨
      h.net.nextGen op.nowMs < s.durable + genPersistStep

theorem initialGen_gt_iff (stored : Option Registry) (g : Nat) :
    (∀ (uuid : String) (nowMs : Nat), g < (stored.getD (new uuid)).initialGen nowMs) ↔
      g < (stored.map (·.genHwm)).getD 0 + genPersistStep := by
  have hgen (uuid : String) (nowMs : Nat) : (stored.getD (new uuid)).initialGen nowMs =
      max nowMs ((stored.map (·.genHwm)).getD 0 + genPersistStep) := by
    cases stored <;> rfl
  constructor
  · intro h
    have h0 := h "" 0
    rw [hgen, Nat.zero_max] at h0
    exact h0
  · intro h uuid nowMs
    rw [hgen]
    exact lt_of_lt_of_le h (le_max_right _ _)

variable {env : CoordText}

theorem perform_durableFirst_iff {h : History} (hd : h.DurableFirst) (op : LockedOp) :
    (h.perform env op).DurableFirst ↔ h.Covered env op := by
  rcases @perform_cases env h op with ⟨hbooks, hlog⟩ | ⟨base, rfl, hmarks, hlt, view, hview, hlog⟩
  · have hsame : (h.net.perform env op).directory.gen = h.net.directory.gen := by
      rcases hbooks with hm | hm | hm
      all_goals exact congrArg gen hm
    refine ⟨fun _ hne => absurd hsame hne, fun _ => ?_⟩
    unfold DurableFirst
    rw [hlog]
    exact hd
  · have hminted : (h.net.perform env op).directory.gen ≠ h.net.directory.gen := by
      have hgen := congrArg gen hmarks
      rw [mint] at hgen
      split_ifs at hgen <;> exact fun hsame => hlt.ne' (hgen.symm.trans hsame)
    have hdurable : ((h.net.perform env op).stored.registry.map (·.genHwm)).getD 0 = _ :=
      congrArg durable hmarks
    unfold DurableFirst Covered
    rw [hlog, forall_mem_cons, initialGen_gt_iff, hview, hdurable,
      mint_covered_iff (show 0 < genPersistStep by decide)]
    exact ⟨fun h _ => h.1, fun h => ⟨h hminted, hd⟩⟩

end History

def HistoryEvent.Covered (env : CoordText) (h : History) : HistoryEvent → Prop
  | .perform op => h.Covered env op
  | .crash _ _ _ _ => True

/-- A broadcast generation is below what a process restarted from the stored registry would
start at exactly when it passes the mark and the mark is saved, or the stored mark still
covers it; and in a run of such broadcasts all of them are. -/
theorem durable_before_visible_iff (env : CoordText) :
    (∀ (h : History) (op : LockedOp), h.DurableFirst →
      ((h.perform env op).DurableFirst ↔ h.Covered env op)) ∧
    ∀ h, (historySystem env).ReachableWith (fun h e => e.Covered env h) h → h.DurableFirst := by
  refine ⟨fun h op hd => History.perform_durableFirst_iff hd op, fun h hr => ?_⟩
  refine hr.invariant (P := History.DurableFirst) ?_ ?_
  · rintro h ⟨hlog, -⟩
    unfold History.DurableFirst
    rw [hlog]
    exact fun b hb => absurd hb not_mem_nil
  · intro h e h' hd hcovered hstep
    cases e with
    | perform op =>
      cases hstep
      exact (History.perform_durableFirst_iff hd op).mpr hcovered
    | crash during uuid now nowMs =>
      obtain ⟨net, -, rfl⟩ := map_eq_some_iff.mp hstep
      exact hd

open HistoryExample in
theorem durable_before_visible_saved :
    (start.perform .byteText (.flush ⟨[⟨"k", "", "active"⟩], 0, 0, true⟩)).DurableFirst := by
  refine ((durable_before_visible_iff .byteText).1 start _ (fun b hb => absurd hb not_mem_nil)).mpr
    fun _ => .inl ⟨?_, rfl⟩
  decide +kernel

open HistoryExample in
/-- The save of the mark fails, the view is broadcast all the same, and the next process
starts below it. -/
theorem broadcast_without_mark :
    ∃ h, (historySystem .byteText).Reachable h ∧ (∃ b ∈ h.broadcast, b.1.gen = 1001 ∧
      ∃ nowMs, (b.2.getD (new "v")).initialGen nowMs = 1000) ∧ ¬ h.DurableFirst := by
  have hlog : ((historySystem .byteText).run start [publish false]).map
      (fun h => h.broadcast.map fun b => (b.1.gen, (b.2.getD (new "v")).initialGen 0)) =
      some [(1001, 1000)] := by
    decide +kernel
  obtain ⟨h, hrun, hlog⟩ := map_eq_some_iff.mp hlog
  obtain ⟨b, hb, hpair⟩ := mem_map.mp (hlog ▸ mem_cons_self)
  obtain ⟨hgen, hrestart⟩ := Prod.mk.inj hpair
  refine ⟨h, TransitionSystem.Reachable.of_run (.of_initial start_initial) hrun,
    ⟨b, hb, hgen, 0, hrestart⟩, fun hd => ?_⟩
  have hlt := hd b hb "v" 0
  rw [hgen, hrestart] at hlt
  exact absurd hlt (by decide)

end Nqvpn
