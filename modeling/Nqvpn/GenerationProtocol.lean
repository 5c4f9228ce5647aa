import Nqvpn.PushSoundness
import Nqvpn.TransitionSystem

/-!
# The generation protocol

One network at the coordinator, its control links, and the views of any number
of member processes. Everything that runs under the network lock is one event;
so is each message the writer task of a link writes and each one its member
reads. Links may be cut, closed and overflow at any point, members may ask from
any generation they like, and the coordinator may restart as long as it never
reuses a generation.
-/

namespace Nqvpn

open Versioned Link Std.ExtTreeMap TransitionSystem Option

/-- The environment of one operation: signing keys, clocks, database outcome. -/
structure Tick where
  keys : List KeyInfo
  now : Nat
  nowMs : Nat
  saveOk : Bool
deriving DecidableEq

/-- What joins and operator changes can set under the lock, apart from closing
sessions and publishing. -/
structure Facts where
  cfg : NetworkConfig
  registry : Registry
  leases : Leases
  stored : StoredRows
  holdDownSecs : Nat
  reportedMtu : Std.ExtTreeMap NodeId Nat
  traffic : Std.ExtTreeMap NodeId TrafficSample
  exitReadiness : Std.ExtTreeMap NodeId ExitReadiness

inductive LinkRef
  | registered (node : NodeId)
  | retired (index : Nat)
deriving DecidableEq

structure ProtocolState where
  net : NetState
  /-- The view each member process holds. -/
  views : Nat → Snapshot
  /-- Every snapshot ever published, newest first. -/
  history : List Snapshot
  nextSession : Nat

inductive ProtocolEvent
  | edit (facts : Facts)
  | publish (t : Tick)
  | flush (t : Tick)
  | sweep (t : Tick)
  | hello (peer : Nat) (node : NodeId) (role : Role) (exp loginGen haveGen : Nat) (t : Tick)
  | heartbeat (node : NodeId) (role : Role) (hb : Heartbeat) (t : Tick)
  | exitReadiness (node : NodeId) (er : ExitReadiness) (t : Tick)
  | resync (node : NodeId) (haveGen now : Nat)
  | refresh (node : NodeId) (exp loginGen nowMs : Nat)
  | teardown (node : NodeId) (id : Nat) (t : Tick)
  | close (node : NodeId) (code : Nat) (reason : String)
  | supersede (index : Nat)
  | raw (ref : LinkRef) (bytes : List UInt8)
  | write (ref : LinkRef)
  | writerEnd (ref : LinkRef)
  | read (ref : LinkRef)
  | cut (ref : LinkRef)
  | restart (cfg : NetworkConfig) (registry : Registry) (stored : StoredRows) (now nowMs : Nat)

namespace Link

def write (l : Link) : Option Link :=
  match l.writing, l.queue with
  | true, .close _ :: _ => some { l with queue := [], writing := false }
  | true, p :: queue => some { l with queue := queue, wire := l.wire ++ [p] }
  | _, _ => none

def writerEnd (l : Link) : Link := { l with queue := [], writing := false }

def cut (l : Link) : Link := { l.writerEnd with wire := [] }

end Link

namespace NetState

def edit (ns : NetState) (f : Facts) : NetState :=
  { ns with
    cfg := f.cfg
    registry := f.registry
    leases := f.leases
    stored := f.stored
    directory := { ns.directory with
      holdDownSecs := f.holdDownSecs
      reportedMtu := f.reportedMtu
      traffic := f.traffic
      exitReadiness := f.exitReadiness } }

def session (ns : NetState) : LinkRef → Option Session
  | .registered node => ns.sessions[node]?
  | .retired index => ns.retired[index]?

def modifyLink (ns : NetState) (ref : LinkRef) (f : Link → Link) : NetState :=
  match ref with
  | .registered node =>
    { ns with
      sessions := ns.sessions.alter node (Option.map fun s => { s with link := f s.link }) }
  | .retired index =>
    { ns with retired := ns.retired.modify index (fun s => { s with link := f s.link }) }

end NetState

namespace ProtocolState

variable (text : IpNetText) (encode : Snapshot → List UInt8)

def apply (st : ProtocolState) (ns : NetState) : ProtocolState :=
  { st with net := ns, history := recorded st.history ns }

def onLink (st : ProtocolState) (ref : LinkRef) (f : Link → Option Link) : Option ProtocolState :=
  match st.net.session ref with
  | some s => (f s.link).map fun l => { st with net := st.net.modifyLink ref (fun _ => l) }
  | none => none

def read (st : ProtocolState) (ref : LinkRef) : Option ProtocolState :=
  match st.net.session ref with
  | some s =>
    match s.link.wire with
    | p :: wire =>
      some { st with
        net := st.net.modifyLink ref (fun l => { l with wire := wire })
        views := Function.update st.views s.link.peer (View.afterPush (st.views s.link.peer) p) }
    | [] => none
  | none => none

/-- A new coordinator process. The old connections can at most deliver what was
already written. -/
def restart (st : ProtocolState) (cfg : NetworkConfig) (registry : Registry) (stored : StoredRows)
    (now nowMs : Nat) : ProtocolState :=
  let old := st.net.sessions.toList.map Prod.snd ++ st.net.retired
  st.apply { NetState.new encode cfg registry stored now nowMs with
    retired := old.map (fun s => { s with link := s.link.writerEnd }) }

def step (st : ProtocolState) : ProtocolEvent → Option ProtocolState
  | .edit f => some (st.apply (st.net.edit f))
  | .publish t => some (st.apply (st.net.publish text encode t.keys t.now t.nowMs t.saveOk))
  | .flush t => some (st.apply (st.net.flush text encode t.keys t.now t.nowMs t.saveOk))
  | .sweep t => some (st.apply (st.net.sweep text encode t.keys t.now t.nowMs t.saveOk))
  | .hello peer node role exp loginGen haveGen t =>
    let s : Session := ⟨st.nextSession, node, role, exp, loginGen, false, new peer⟩
    some { st.apply (st.net.register text encode s haveGen t.keys t.now t.nowMs t.saveOk) with
      nextSession := st.nextSession + 1 }
  | .heartbeat node role hb t =>
    some (st.apply (st.net.onHeartbeat text encode node role hb t.keys t.now t.nowMs t.saveOk))
  | .exitReadiness node er t =>
    some (st.apply (st.net.onExitReadiness text encode node er t.keys t.now t.nowMs t.saveOk))
  | .resync node haveGen now => some (st.apply (st.net.onResync node haveGen now))
  | .refresh node exp loginGen nowMs =>
    some (st.apply (st.net.applyRefresh node exp loginGen nowMs))
  | .teardown node id t =>
    some (st.apply (st.net.teardown text encode node id t.keys t.now t.nowMs t.saveOk))
  | .close node code reason => some (st.apply (st.net.closeSessionWith node code reason))
  | .supersede index =>
    some (st.apply { st.net with
      retired := st.net.retired.modify index
        (fun s => s.shut "superseded" closeSuperseded "superseded by a newer session") })
  | .raw ref bytes => st.onLink ref (fun l => l.trySend (.raw bytes))
  | .write ref => st.onLink ref write
  | .writerEnd ref => st.onLink ref (fun l => some l.writerEnd)
  | .cut ref => st.onLink ref (fun l => some l.cut)
  | .read ref => st.read ref
  | .restart cfg registry stored now nowMs =>
    -- Generations are never reused: the new process starts above all of them.
    if st.history.all (fun s => s.gen < registry.initialGen nowMs) then
      some (st.restart encode cfg registry stored now nowMs)
    else none

def Fresh (st : ProtocolState) : Prop :=
  ∃ cfg registry stored now nowMs, st.net = NetState.new encode cfg registry stored now nowMs ∧
    st.views = (fun _ => View.new) ∧ st.history = [st.net.directory.published]

end ProtocolState

variable {log : List Snapshot} {ns : NetState} {ref : LinkRef} {s : Session} {text : IpNetText}
  {encode : Snapshot → List UInt8} {st : ProtocolState} {g : Nat} {v : Snapshot}

theorem NetState.Sound.edit (h : ns.Sound log) (f : Facts) :
    (ns.edit f).Sound log :=
  h.of_sameView _ ⟨rfl, rfl, rfl, rfl⟩ rfl rfl

theorem mem_modify {α : Type} {l : List α} {i : Nat} {f : α → α} {a : α} (h : a ∈ l.modify i f) :
    a ∈ l ∨ ∃ b, l[i]? = some b ∧ a = f b := by
  obtain ⟨j, hj⟩ := List.mem_iff_getElem?.mp h
  rw [List.getElem?_modify] at hj
  split_ifs at hj with hij
  · obtain ⟨b, hb, rfl⟩ := map_eq_some_iff.mp hj
    exact .inr ⟨b, hij ▸ hb, rfl⟩
  · exact .inl (List.mem_iff_getElem?.mpr ⟨j, by simpa using hj⟩)

theorem NetState.Sound.modifyLink (h : ns.Sound log) (hs : ns.session ref = some s) {f : Link → Link}
    (hf : s.link.Carries log → (f s.link).Carries log) (hclose : s.link.NoClose → (f s.link).NoClose) : (ns.modifyLink ref f).Sound log := by
  cases ref with
  | registered node =>
    refine { h with registered := ?_ }
    intro node' s' hs'
    change (ns.sessions.alter node _)[node']? = some s' at hs'
    rw [getElem?_alter] at hs'
    change ns.sessions[node]? = some s at hs
    split_ifs at hs' with heq
    · rw [hs, Option.map_some, Option.some.injEq] at hs'
      subst hs'
      exact (h.registered node s hs).imp hf hclose
    · exact h.registered node' s' hs'
  | retired index =>
    refine { h with retired := ?_ }
    intro s' hs'
    change ns.retired[index]? = some s at hs
    rcases mem_modify hs' with hold | ⟨s₀, hs₀, rfl⟩
    · exact h.retired s' hold
    · rw [hs, Option.some.injEq] at hs₀
      subst hs₀
      exact hf (h.retired s (List.mem_of_getElem? hs))

theorem NetState.Sound.carries (h : ns.Sound log) (hs : ns.session ref = some s) : s.link.Carries log := by
  cases ref with
  | registered node => exact (h.registered node s hs).1
  | retired index => exact h.retired s (List.mem_of_getElem? hs)

/-- What the views hold, and what is on its way to them, is explained by the log. -/
structure ProtocolState.Inv (st : ProtocolState) : Prop where
  sound : st.net.Sound st.history
  held : ∀ p, snapshotVersioned.Held st.history (st.views p)

namespace ProtocolState

variable {text : IpNetText} {encode : Snapshot → List UInt8} {st st' : ProtocolState}
variable {ns : NetState} {ref : LinkRef} {log : List Snapshot} {l l' : Link}

theorem Inv.apply (h : st.Inv) (hns : ns.SoundAfter st.history) :
    (st.apply ns).Inv := by
  refine ⟨hns, ?_⟩
  intro p
  change snapshotVersioned.Held (recorded st.history ns) (st.views p)
  unfold recorded
  split_ifs
  · exact h.held p
  · exact (h.held p).cons

theorem Inv.onLink (h : st.Inv) {f : Link → Option Link}
    (hf : ∀ l l', f l = some l' → (l.Carries st.history → l'.Carries st.history) ∧ (l.NoClose → l'.NoClose))
    (hstep : st.onLink ref f = some st') :
    st'.Inv ∧ st'.views = st.views := by
  unfold ProtocolState.onLink at hstep
  cases hs : st.net.session ref with
  | none => simp [hs] at hstep
  | some s =>
    rw [hs] at hstep
    obtain ⟨l, hl, rfl⟩ := map_eq_some_iff.mp hstep
    exact ⟨⟨h.sound.modifyLink hs (f := fun _ => l) (hf _ _ hl).1 (hf _ _ hl).2, h.held⟩, rfl⟩

theorem carries_of_subset (h : l.Carries log) (hsub : ∀ p ∈ l'.wire ++ l'.queue, p ∈ l.wire ++ l.queue) : l'.Carries log :=
  fun p hp => h p (hsub p hp)

theorem write_keeps (hw : l.write = some l') :
    (l.Carries log → l'.Carries log) ∧ (l.NoClose → l'.NoClose) := by
  unfold write at hw
  split at hw
  · cases hw
    exact ⟨fun h => carries_of_subset h (by simp +contextual), fun _ reason => by simp⟩
  · rename_i p queue hnot hwriting hqueue
    cases hw
    refine ⟨fun h => carries_of_subset h (by simp [hqueue]), fun h reason hmem => h reason ?_⟩
    rw [hqueue]
    exact List.mem_cons_of_mem p hmem
  · cases hw

theorem writerEnd_keeps (l : Link) :
    (l.Carries log → l.writerEnd.Carries log) ∧ (l.NoClose → l.writerEnd.NoClose) :=
  ⟨fun h => carries_of_subset h (by simp +contextual [writerEnd]),
    fun _ reason => by simp [writerEnd]⟩

theorem cut_keeps (l : Link) :
    (l.Carries log → l.cut.Carries log) ∧ (l.NoClose → l.cut.NoClose) :=
  ⟨fun h => carries_of_subset h (by simp [cut, writerEnd]),
    fun _ reason => by simp [cut, writerEnd]⟩

theorem raw_keeps {bytes : List UInt8} (hr : l.trySend (.raw bytes) = some l') :
    (l.Carries log → l'.Carries log) ∧ (l.NoClose → l'.NoClose) := by
  have hl' := trySend_eq_some hr
  subst hl'
  refine ⟨fun h p hp => ?_, fun h reason hmem => ?_⟩
  · rw [← List.append_assoc, List.mem_append, List.mem_singleton] at hp
    rcases hp with hold | rfl
    · exact h p hold
    · trivial
  · exact h reason (by simpa using hmem)

theorem Inv.read (h : st.Inv) (hstep : st.read ref = some st') :
    st'.Inv ∧ ∀ p, (st.views p).gen ≤ (st'.views p).gen := by
  unfold ProtocolState.read at hstep
  cases hs : st.net.session ref with
  | none => simp [hs] at hstep
  | some s =>
    rw [hs] at hstep
    cases hwire : s.link.wire with
    | nil => simp [hwire] at hstep
    | cons push wire =>
      simp only [hwire, some.injEq] at hstep
      subst hstep
      have hknown := h.sound.carries hs push (by simp [hwire])
      obtain ⟨hheld, hgen⟩ := deliver_known h.sound.wellFormed (h.held s.link.peer) hknown
      rw [Push.deliver_toMessage] at hheld hgen
      refine ⟨⟨h.sound.modifyLink hs (f := fun l => { l with wire := wire })
        (fun hc => carries_of_subset hc ?_) (fun hc => hc), ?_⟩, ?_⟩
      · intro p hp
        rw [hwire]
        exact List.mem_cons_of_mem push hp
      · exact (Function.forall_update_iff st.views fun _ => snapshotVersioned.Held st.history).mpr
          ⟨hheld, fun p _ => h.held p⟩
      · exact (Function.forall_update_iff st.views fun p v => (st.views p).gen ≤ v.gen).mpr
          ⟨hgen, fun _ _ => le_rfl⟩

theorem Link.new_carries (log : List Snapshot) (peer : Nat) : (new peer).Carries log := by
  simp [Carries, new]

theorem Link.new_noClose (peer : Nat) : (new peer).NoClose := by simp [NoClose, new]

theorem sound_supersede (h : ns.Sound log) (index : Nat) (push : String) (code : Nat) (reason : String) :
    ({ ns with retired := ns.retired.modify index (fun s => s.shut push code reason) } :
      NetState).Sound log := by
  refine { h with retired := ?_ }
  intro s hs
  rcases mem_modify hs with hold | ⟨s₀, hs₀, rfl⟩
  · exact h.retired s hold
  · exact (h.retired s₀ (List.mem_of_getElem? hs₀)).shut push code reason

/-- A new process, over connections that can only deliver what the log explains. -/
theorem sound_new {cfg : NetworkConfig} {registry : Registry} {stored : StoredRows} {now nowMs : Nat}
    {retired : List Session} (hlog : snapshotVersioned.WellFormedLog log)
    (hfresh : ∀ s ∈ log, s.gen < registry.initialGen nowMs)
    (hretired : ∀ s ∈ retired, s.link.Carries log) :
    let fresh := { NetState.new encode cfg registry stored now nowMs with retired := retired }
    fresh.Sound (fresh.directory.published :: log) := by
  have hpos : 0 < registry.initialGen nowMs :=
    lt_of_lt_of_le (Nat.succ_pos _) (le_max_right nowMs (registry.genHwm + genPersistStep))
  refine ⟨hlog.cons hfresh (Snapshot.normal_default.set_gen _) hpos, rfl, rfl, ?_, ?_,
    fun s hs => (hretired s hs).cons⟩
  · intro d hd
    cases hd
  · intro node s hs
    change (∅ : Std.ExtTreeMap NodeId Session)[node]? = some s at hs
    simp at hs

theorem Inv.restart (h : st.Inv) {cfg : NetworkConfig} {registry : Registry} {stored : StoredRows}
    {now nowMs : Nat} (hfresh : ∀ s ∈ st.history, s.gen < registry.initialGen nowMs) :
    (st.restart encode cfg registry stored now nowMs).Inv := by
  refine h.apply ?_
  rw [NetState.SoundAfter, recorded, if_neg]
  · refine sound_new h.sound.wellFormed hfresh fun s hs => ?_
    obtain ⟨s₀, hs₀, rfl⟩ := List.mem_map.mp hs
    refine (writerEnd_keeps s₀.link).1 ?_
    rcases List.mem_append.mp hs₀ with hreg | hret
    · obtain ⟨⟨node, s₁⟩, hmem, rfl⟩ := List.mem_map.mp hreg
      exact (h.sound.registered node s₁ (mem_toList_iff_getElem?_eq_some.mp hmem)).1
    · exact h.sound.retired s₀ hret
  · exact fun heq => lt_irrefl _ (hfresh _ (List.mem_of_mem_head? heq))

theorem step_inv (text : IpNetText) (encode : Snapshot → List UInt8) (h : st.Inv) {e : ProtocolEvent} (hstep : st.step text encode e = some st') :
    st'.Inv ∧ ∀ p, (st.views p).gen ≤ (st'.views p).gen := by
  have hsame : st'.Inv ∧ st'.views = st.views →
      st'.Inv ∧ ∀ p, (st.views p).gen ≤ (st'.views p).gen :=
    fun hv => ⟨hv.1, fun p => by rw [hv.2]⟩
  have happly : ∀ ns : NetState, ns.SoundAfter st.history → st.apply ns = st' →
      st'.Inv ∧ ∀ p, (st.views p).gen ≤ (st'.views p).gen := by
    rintro ns hns rfl
    exact ⟨h.apply hns, fun p => le_rfl⟩
  cases e with
  | edit f => exact happly _ (h.sound.edit f).after (some.inj hstep)
  | publish t => exact happly _ (h.sound.publish text encode ..) (some.inj hstep)
  | flush t => exact happly _ (h.sound.flush text encode ..) (some.inj hstep)
  | sweep t => exact happly _ (h.sound.sweep text encode ..) (some.inj hstep)
  | hello peer node role exp loginGen haveGen t =>
    rw [← some.inj hstep]
    have hreg := h.apply (h.sound.register text encode t.keys t.now t.nowMs t.saveOk
      ⟨st.nextSession, node, role, exp, loginGen, false, Link.new peer⟩ haveGen
      (Link.new_carries _ _) (Link.new_noClose _))
    exact ⟨⟨hreg.sound, hreg.held⟩, fun p => le_rfl⟩
  | heartbeat node role hb t =>
    exact happly _ (h.sound.onHeartbeat text encode ..) (some.inj hstep)
  | exitReadiness node er t =>
    exact happly _ (h.sound.onExitReadiness text encode ..) (some.inj hstep)
  | resync node haveGen now => exact happly _ (h.sound.onResync ..) (some.inj hstep)
  | refresh node exp loginGen nowMs =>
    exact happly _ (h.sound.applyRefresh ..).after (some.inj hstep)
  | teardown node id t =>
    exact happly _ (h.sound.teardown text encode ..) (some.inj hstep)
  | close node code reason =>
    exact happly _ (h.sound.closeSessionWith ..).after (some.inj hstep)
  | supersede index => exact happly _ (sound_supersede h.sound ..).after (some.inj hstep)
  | raw ref bytes => exact hsame (h.onLink (fun _ _ => raw_keeps) hstep)
  | write ref => exact hsame (h.onLink (fun _ _ => write_keeps) hstep)
  | writerEnd ref =>
    exact hsame (h.onLink (fun l _ hl => some.inj hl ▸ writerEnd_keeps l) hstep)
  | cut ref => exact hsame (h.onLink (fun l _ hl => some.inj hl ▸ cut_keeps l) hstep)
  | read ref => exact h.read hstep
  | restart cfg registry stored now nowMs =>
    simp only [step] at hstep
    split_ifs at hstep with hfresh
    rw [← some.inj hstep]
    exact ⟨h.restart (by simpa using hfresh), fun p => le_rfl⟩

theorem fresh_inv (h : st.Fresh encode) : st.Inv := by
  obtain ⟨cfg, registry, stored, now, nowMs, hnet, hviews, hhistory⟩ := h
  refine ⟨?_, fun p => by rw [hviews]; exact .inl rfl⟩
  rw [hhistory, hnet]
  exact sound_new ⟨.nil, List.forall_mem_nil _, List.forall_mem_nil _⟩ (List.forall_mem_nil _)
    (List.forall_mem_nil _)

end ProtocolState

def generationProtocol (text : IpNetText) (encode : Snapshot → List UInt8) :
    TransitionSystem ProtocolState ProtocolEvent where
  Initial := ProtocolState.Fresh encode
  step := ProtocolState.step text encode

theorem reachable_inv (h : (generationProtocol text encode).Reachable st) : st.Inv :=
  h.invariant (P := ProtocolState.Inv) (fun _ => ProtocolState.fresh_inv)
    (fun _ _ _ hinv hstep => (ProtocolState.step_inv text encode hinv hstep).1)

/-! ## Convergence

Draining a link is a run of the system: the writer writes everything queued,
then the member reads everything written. -/

namespace ProtocolState

variable (text : IpNetText) (encode : Snapshot → List UInt8)

def drainEvents (node : NodeId) (l : Link) : List ProtocolEvent :=
  List.replicate l.queue.length (.write (.registered node)) ++
    List.replicate (l.wire ++ l.queue).length (.read (.registered node))

/-- Only links and views moved. -/
structure Quiet (st st' : ProtocolState) : Prop where
  directory : st'.net.directory = st.net.directory
  cfg : st'.net.cfg = st.net.cfg
  startedAt : st'.net.startedAt = st.net.startedAt
  history : st'.history = st.history

variable {st : ProtocolState} {node : NodeId} {s : Session} {l : Link} {p : Push}

theorem Quiet.trans {st' st'' : ProtocolState} (h : Quiet st st') (h' : Quiet st' st'') :
    Quiet st st'' :=
  ⟨h'.directory.trans h.directory, h'.cfg.trans h.cfg, h'.startedAt.trans h.startedAt,
    h'.history.trans h.history⟩

def withLink (st : ProtocolState) (node : NodeId) (l : Link) : ProtocolState :=
  { st with net := st.net.modifyLink (.registered node) (fun _ => l) }

theorem session_withLink (hs : st.net.sessions[node]? = some s) (l : Link) :
    (st.withLink node l).net.sessions[node]? = some { s with link := l } := by
  change (st.net.sessions.alter node _)[node]? = _
  rw [getElem?_alter_self, hs, Option.map_some]

theorem write_eq {q : List Push} (hwriting : l.writing) (hqueue : l.queue = p :: q)
    (hp : ∀ reason, p ≠ .close reason) :
    l.write = some { l with queue := q, wire := l.wire ++ [p] } := by
  obtain ⟨peer, queue, writing, wire, closed⟩ := l
  subst hwriting hqueue
  cases p with
  | close reason => exact absurd rfl (hp reason)
  | delta d | snapshot t | raw bytes => rfl

theorem step_write (hs : st.net.sessions[node]? = some s) (hl : s.link.write = some l) :
    (generationProtocol text encode).step st (.write (.registered node)) =
      some (st.withLink node l) := by
  change st.onLink (.registered node) write = _
  simp [onLink, NetState.session, hs, hl, withLink]

theorem step_read {w : List Push} (hs : st.net.sessions[node]? = some s) (hwire : s.link.wire = p :: w) :
    ∃ st', (generationProtocol text encode).step st (.read (.registered node)) = some st' ∧
      Quiet st st' ∧ st'.net.sessions[node]? = some { s with link := { s.link with wire := w } } ∧
      st'.views s.link.peer = View.afterPush (st.views s.link.peer) p := by
  refine ⟨{ st with
    net := st.net.modifyLink (.registered node) (fun l => { l with wire := w })
    views := Function.update st.views s.link.peer (View.afterPush (st.views s.link.peer) p) },
    ?_, ⟨rfl, rfl, rfl, rfl⟩, ?_, Function.update_self ..⟩
  · change st.read (.registered node) = _
    simp [read, NetState.session, hs, hwire]
  · change (st.net.sessions.alter node _)[node]? = _
    rw [getElem?_alter_self, hs, Option.map_some]

theorem run_write_all (q : List Push) (hs : st.net.sessions[node]? = some s) (hqueue : s.link.queue = q)
    (hwriting : s.link.writing) (hclose : s.link.NoClose) :
    ∃ st', (generationProtocol text encode).run st
        (List.replicate q.length (.write (.registered node))) = some st' ∧ Quiet st st' ∧
      st'.net.sessions[node]? =
        some { s with link := { s.link with queue := [], wire := s.link.wire ++ q } } ∧
      st'.views = st.views := by
  induction q generalizing st s with
  | nil =>
    refine ⟨st, rfl, ⟨rfl, rfl, rfl, rfl⟩, ?_, rfl⟩
    rw [hs, List.append_nil, ← hqueue]
  | cons p q ih =>
    have hp : ∀ reason, p ≠ .close reason := by
      rintro reason rfl
      exact hclose reason (by simp [hqueue])
    have hstep := step_write text encode hs (write_eq hwriting hqueue hp)
    obtain ⟨st', hrun, hquiet, hs', hviews⟩ := ih
      (session_withLink hs { s.link with queue := q, wire := s.link.wire ++ [p] }) rfl hwriting
      (fun reason hmem => hclose reason (by rw [hqueue]; exact List.mem_cons_of_mem p hmem))
    refine ⟨st', ?_, { hquiet with }, ?_, hviews⟩
    · rw [List.length_cons, List.replicate_succ, run_cons, hstep]
      exact hrun
    · simpa using hs'

theorem run_read_all (w : List Push) (hs : st.net.sessions[node]? = some s) (hwire : s.link.wire = w) :
    ∃ st', (generationProtocol text encode).run st
        (List.replicate w.length (.read (.registered node))) = some st' ∧ Quiet st st' ∧
      st'.net.sessions[node]? = some { s with link := { s.link with wire := [] } } ∧
      st'.views s.link.peer = w.foldl View.afterPush (st.views s.link.peer) := by
  induction w generalizing st s with
  | nil =>
    refine ⟨st, rfl, ⟨rfl, rfl, rfl, rfl⟩, ?_, rfl⟩
    rw [hs, ← hwire]
  | cons p w ih =>
    obtain ⟨st₁, hstep, hquiet₁, hs₁, hview₁⟩ := step_read text encode hs hwire
    obtain ⟨st', hrun, hquiet, hs', hviews⟩ := ih hs₁ rfl
    refine ⟨st', ?_, hquiet₁.trans hquiet, hs', ?_⟩
    · rw [List.length_cons, List.replicate_succ, run_cons, hstep]
      exact hrun
    · rw [List.foldl_cons, ← hview₁]
      exact hviews

theorem run_drain (hs : st.net.sessions[node]? = some s) (hwriting : s.link.writing)
    (hclose : s.link.NoClose) :
    ∃ st', (generationProtocol text encode).run st (drainEvents node s.link) = some st' ∧
      Quiet st st' ∧
      st'.net.sessions[node]? = some { s with link := { s.link with queue := [], wire := [] } } ∧
      st'.views s.link.peer =
        (s.link.wire ++ s.link.queue).foldl View.afterPush (st.views s.link.peer) := by
  obtain ⟨st₁, hrun₁, hquiet₁, hs₁, hviews₁⟩ :=
    run_write_all text encode s.link.queue hs rfl hwriting hclose
  obtain ⟨st', hrun, hquiet, hs', hviews⟩ := run_read_all text encode _ hs₁ rfl
  refine ⟨st', ?_, hquiet₁.trans hquiet, hs', ?_⟩
  · rw [drainEvents, run_append, hrun₁]
    exact hrun
  · rw [hviews, hviews₁]

end ProtocolState

namespace NetState

variable (text : IpNetText) (encode : Snapshot → List UInt8) {ns : NetState} {node : NodeId}
  {s : Session}

theorem broadcastDelta_session (hs : ns.sessions[node]? = some s) (d : Delta) :
    ∃ s' ps, (ns.broadcastDelta d).sessions[node]? = some s' ∧ s.link.Extends s'.link ps := by
  refine ⟨s.pushDelta d, ?_⟩
  have hs' : (ns.broadcastDelta d).sessions[node]? = some (s.pushDelta d) := by
    change (ns.sessions.map fun _ s => s.pushDelta d)[node]? = _
    rw [getElem?_map, hs, map_some]
  rcases s.pushDelta_extends d with hext | hext
  · exact ⟨_, hs', hext⟩
  · exact ⟨_, hs', hext⟩

/-- The session of `node` may have been sent more, and the grace period is the same. -/
def Feeds (node : NodeId) (s : Session) (ns ns' : NetState) : Prop :=
  ∃ s' ps, ns'.sessions[node]? = some s' ∧ s.link.Extends s'.link ps ∧ ns'.inGrace = ns.inGrace

theorem publish_feeds (hs : ns.sessions[node]? = some s) (keys : List KeyInfo) (now nowMs : Nat)
    (saveOk : Bool) : Feeds node s ns (ns.publish text encode keys now nowMs saveOk) := by
  unfold publish
  cases hr : ns.directory.recompute text encode ns.cfg ns.registry ns.leases keys now nowMs with
  | mk d r =>
    cases r with
    | none => exact ⟨s, [], by simpa only [hr] using hs, Extends.refl _, by simp only [hr]; rfl⟩
    | some delta =>
      simp only [hr]
      obtain ⟨s', ps, hs', hext⟩ := broadcastDelta_session hs delta
      exact ⟨s', ps, hs', hext, rfl⟩

theorem publishSoon_feeds (hs : ns.sessions[node]? = some s) (keys : List KeyInfo)
    (now nowMs : Nat) (saveOk : Bool) :
    Feeds node s ns (ns.publishSoon text encode keys now nowMs saveOk).1 := by
  unfold publishSoon
  simp only
  split_ifs
  · exact publish_feeds text encode hs keys now nowMs saveOk
  · exact ⟨s, [], hs, Extends.refl _, rfl⟩
  · exact ⟨s, [], hs, Extends.refl _, rfl⟩

theorem answerHeartbeat_directory (ns : NetState) (node : NodeId) (hb : Heartbeat) (now : Nat) :
    (ns.answerHeartbeat node hb now).directory = ns.directory := by
  unfold answerHeartbeat
  split_ifs <;> first | rfl | exact catchUp_directory ..

theorem catchUp_session (hs : ns.sessions[node]? = some s) (haveGen : Nat) :
    (ns.catchUp node haveGen).sessions[node]? = some (s.catchUp (ns.catchUpPushes haveGen)) := by
  simp [catchUp, hs]

/-- What a heartbeat does to the session it came on: outside the grace period, a
member behind the current generation gets the pushes it lacks last. -/
theorem onHeartbeat_session (hs : ns.sessions[node]? = some s) (role : Role) (hb : Heartbeat)
    (t : Tick) (hgrace : ns.inGrace t.now = false) :
    ∃ s', (ns.onHeartbeat text encode node role hb t.keys t.now t.nowMs t.saveOk).sessions[node]? =
        some s' ∧ s'.link.peer = s.link.peer ∧ s'.link.wire = s.link.wire ∧
      s'.link.writing = s.link.writing ∧
      ∀ ns', ns.onHeartbeat text encode node role hb t.keys t.now t.nowMs t.saveOk = ns' →
        hb.gen ≠ ns'.directory.gen → s'.link.closed = none →
        ∃ q, s'.link.queue = q ++ ns'.catchUpPushes hb.gen := by
  let folded := ns.foldHeartbeat node role hb t.now t.nowMs
  have hfold : folded.1.sessions[node]? = some s := hs
  obtain ⟨mid, hmid, s₁, ps, hs₁, hext₁, hgrace₁⟩ : ∃ mid : NetState,
      ns.onHeartbeat text encode node role hb t.keys t.now t.nowMs t.saveOk =
        mid.answerHeartbeat node hb t.now ∧ Feeds node s folded.1 mid := by
    refine ⟨if folded.2 then (folded.1.publishSoon text encode t.keys t.now t.nowMs t.saveOk).1
      else folded.1, rfl, ?_⟩
    split_ifs
    · exact publishSoon_feeds text encode hfold t.keys t.now t.nowMs t.saveOk
    · exact ⟨s, [], hfold, Extends.refl _, rfl⟩
  replace hgrace₁ : mid.inGrace t.now = false := (congrFun hgrace₁ t.now).trans hgrace
  rw [hmid]
  have hdir := answerHeartbeat_directory mid node hb t.now
  unfold answerHeartbeat at hdir ⊢
  rw [hgrace₁] at hdir ⊢
  simp only [Bool.false_eq_true, if_false] at hdir ⊢
  split_ifs at hdir ⊢ with hgen hdigest
  · have hext := s₁.catchUp_extends (mid.catchUpPushes hb.gen)
    refine ⟨_, catchUp_session hs₁ hb.gen, hext.peer.trans hext₁.peer, hext.wire.trans hext₁.wire,
      hext.writing.trans hext₁.writing, ?_⟩
    rintro ns' rfl - hclosed
    obtain ⟨sent, -, hqueue, hall⟩ := hext.queue
    refine ⟨s₁.link.queue, ?_⟩
    rw [hqueue, hall hclosed, catchUpPushes, catchUpPushes, hdir]
  · have hext := s₁.catchUp_extends (mid.catchUpPushes 0)
    refine ⟨_, catchUp_session hs₁ 0, hext.peer.trans hext₁.peer, hext.wire.trans hext₁.wire,
      hext.writing.trans hext₁.writing, ?_⟩
    rintro ns' rfl hne -
    rw [hdir] at hne
    exact absurd hne hgen
  · refine ⟨s₁, hs₁, hext₁.peer, hext₁.wire, hext₁.writing, ?_⟩
    rintro ns' rfl hne -
    exact absurd hne hgen

end NetState

/-! ## The protocol's guarantees -/

theorem foldl_afterPush (v : Snapshot) (ps : List Push) :
    ps.foldl View.afterPush v = (ps.map Push.toMessage).foldl snapshotVersioned.deliver v := by
  rw [List.foldl_map]
  simp [Push.deliver_toMessage]

theorem linked_of_linked {chain : List Delta} {e : Nat} (h : Directory.deltasSince.linked g chain = some e) : snapshotVersioned.Linked g chain e := by
  induction chain generalizing g with
  | nil => exact some.inj h
  | cons d chain ih =>
    unfold Directory.deltasSince.linked at h
    split_ifs at h with hbase
    exact ⟨not_not.mp hbase, ih h⟩

/-- The pushes queued for a holder of generation `g` bring any replica that has
reached `g` to the current generation. -/
theorem catchUpPushes_reach (h : ns.Sound log) (hv : snapshotVersioned.Held log v) (hg : g ≤ v.gen) :
    ns.directory.gen ≤ ((ns.catchUpPushes g).foldl View.afterPush v).gen := by
  unfold NetState.catchUpPushes
  cases hchain : ns.directory.deltasSince g with
  | some chain =>
    obtain ⟨hring, hlink⟩ := Directory.deltasSince_eq_some hchain
    have hreach := deliver_chain_reaches h.wellFormed chain hv (fun d hd => h.ring d (hring d hd))
      (linked_of_linked hlink) hg
    simp only [foldl_afterPush, List.map_map]
    exact hreach
  | none =>
    simp only [List.foldl_cons, List.foldl_nil]
    rw [h.gen, ← Push.deliver_toMessage]
    exact deliver_snapshot_reaches h.wellFormed (List.mem_of_mem_head? h.head)

theorem Link.Carries.deliver {l : Link} (h : l.Carries log) (hlog : snapshotVersioned.WellFormedLog log)
    (hv : snapshotVersioned.Held log v) (ps : List Push) (hps : ∀ p ∈ ps, p ∈ l.wire ++ l.queue) :
    snapshotVersioned.Held log (ps.foldl View.afterPush v) ∧
      v.gen ≤ (ps.foldl View.afterPush v).gen := by
  rw [foldl_afterPush]
  refine deliver_all hlog _ hv ?_
  intro m hm
  obtain ⟨p, hp, rfl⟩ := List.mem_map.mp hm
  exact h p (hps p hp)

/-- One heartbeat built from the view, and the pushes it causes unless they
overflow the queue, bring a member with an open session to the published snapshot. -/
theorem heartbeat_converges (h : st.Inv) {node : NodeId} (hs : st.net.sessions[node]? = some s)
    (hwriting : s.link.writing) (hwire : s.link.wire = []) (role : Role) (hb : Heartbeat) (t : Tick)
    (hgrace : st.net.inGrace t.now = false) (hgen : hb.gen = (st.views s.link.peer).gen) :
    ∃ (st₂ : ProtocolState) (s₂ : Session),
      (generationProtocol text encode).step st (.heartbeat node role hb t) = some st₂ ∧
      st₂.net.sessions[node]? = some s₂ ∧ (s₂.link.closed = none →
        ∃ st₃, (generationProtocol text encode).run st₂ (ProtocolState.drainEvents node s₂.link) =
          some st₃ ∧ st₃.views s.link.peer = st₃.net.directory.published) := by
  obtain ⟨s₂, hs₂, hpeer, hwire', hwriting', hqueue⟩ :=
    NetState.onHeartbeat_session text encode hs role hb t hgrace
  refine ⟨st.apply (st.net.onHeartbeat text encode node role hb t.keys t.now t.nowMs t.saveOk), s₂,
    rfl, hs₂, ?_⟩
  intro hopen
  have hinv₂ := h.apply (h.sound.onHeartbeat text encode t.keys t.now t.nowMs t.saveOk node role hb)
  generalize hst₂ : st.apply (st.net.onHeartbeat text encode node role hb t.keys t.now t.nowMs
    t.saveOk) = st₂ at hinv₂
  have hnet : st.net.onHeartbeat text encode node role hb t.keys t.now t.nowMs t.saveOk = st₂.net := by
    rw [← hst₂]
    rfl
  have hviews : st₂.views = st.views := by
    rw [← hst₂]
    rfl
  rw [hnet] at hs₂
  obtain ⟨hcarries, hclose⟩ := hinv₂.sound.registered node s₂ hs₂
  obtain ⟨st₃, hrun, hquiet, -, hview₃⟩ := ProtocolState.run_drain text encode
    hs₂ (hwriting'.trans hwriting) hclose
  refine ⟨st₃, hrun, ?_⟩
  rw [hpeer, hwire', hwire, List.nil_append, hviews] at hview₃
  rw [hview₃, hquiet.directory]
  have hv := hinv₂.held s.link.peer
  rw [hviews] at hv
  have hlog := hinv₂.sound.wellFormed
  obtain ⟨hheld, hmono⟩ := hcarries.deliver hlog hv s₂.link.queue
    (fun p hp => List.mem_append.mpr (.inr hp))
  have hreach : st₂.net.directory.gen ≤
      (s₂.link.queue.foldl View.afterPush (st.views s.link.peer)).gen := by
    by_cases hcur : hb.gen = st₂.net.directory.gen
    · rw [← hcur, hgen]
      exact hmono
    · obtain ⟨q, hq⟩ := hqueue _ hnet hcur hopen
      obtain ⟨hheldq, hmonoq⟩ := hcarries.deliver hlog hv q
        (fun p hp => List.mem_append.mpr (.inr (hq ▸ List.mem_append.mpr (.inl hp))))
      rw [hq, List.foldl_append]
      exact catchUpPushes_reach hinv₂.sound hheldq (hgen ▸ hmonoq)
  obtain ⟨rest, hrest⟩ := hinv₂.sound.log_eq
  rw [hrest] at hheld hlog
  rw [hinv₂.sound.gen] at hreach
  exact hheld.eq_head hlog hreach

theorem run_gen_le {st' : ProtocolState} (h : st.Inv) {es : List ProtocolEvent}
    (hrun : (generationProtocol text encode).run st es = some st') (p : Nat) :
    (st.views p).gen ≤ (st'.views p).gen := by
  have hall : st'.Inv ∧ (st.views p).gen ≤ (st'.views p).gen := by
    refine run_invariant
      (P := fun s : ProtocolState => s.Inv ∧ (st.views p).gen ≤ (s.views p).gen) ?_ ⟨h, le_rfl⟩ hrun
    rintro s e s' ⟨hinv, hle⟩ hstep
    obtain ⟨hinv', hmono⟩ := ProtocolState.step_inv text encode hinv hstep
    exact ⟨hinv', hle.trans (hmono p)⟩
  exact hall.2

/-- From every reachable state of the generation protocol: no run moves a view
back; a view at a positive generation is the snapshot published at it; and
delivering what is in flight, one heartbeat built from the view, and the pushes
it causes bring the view to the published snapshot. -/
theorem generation_protocol_safe_and_convergent {text : IpNetText}
    {encode : Snapshot → List UInt8} {st : ProtocolState}
    (h : (generationProtocol text encode).Reachable st) :
    (∀ es st', (generationProtocol text encode).run st es = some st' →
      ∀ p, (st.views p).gen ≤ (st'.views p).gen) ∧
    (∀ p, 0 < (st.views p).gen →
      ∃ s ∈ st.history, s.gen = (st.views p).gen ∧ (st.views p).normalize = s ∧
        ∀ s' ∈ st.history, s'.gen = (st.views p).gen → s' = s) ∧
    (∀ (node : NodeId) (s : Session), st.net.sessions[node]? = some s → s.link.writing = true →
      s.link.closed = none →
      ∃ st₁, (generationProtocol text encode).run st (ProtocolState.drainEvents node s.link) =
          some st₁ ∧
        ∀ role hb t, st.net.inGrace t.now = false → hb.gen = (st₁.views s.link.peer).gen →
          hb.digest = (st₁.views s.link.peer).digest encode →
          ∃ (st₂ : ProtocolState) (s₂ : Session),
            (generationProtocol text encode).step st₁ (.heartbeat node role hb t) = some st₂ ∧
            st₂.net.sessions[node]? = some s₂ ∧ (s₂.link.closed = none →
              ∃ st₃, (generationProtocol text encode).run st₂
                  (ProtocolState.drainEvents node s₂.link) = some st₃ ∧
                st₃.views s.link.peer = st₃.net.directory.published)) := by
  have hinv := reachable_inv h
  refine ⟨fun es st' hrun p => run_gen_le hinv hrun p, ?_, ?_⟩
  · intro p hpos
    have hmem := (hinv.held p).resolve_left (Nat.pos_iff_ne_zero.mp hpos)
    refine ⟨st.views p, hmem, rfl, hinv.sound.wellFormed.canonical _ hmem, ?_⟩
    intro s' hs' hgen
    exact hinv.sound.wellFormed.gen_injective hs' hmem hgen
  · intro node s hs hwriting _
    obtain ⟨hcarries, hclose⟩ := hinv.sound.registered node s hs
    obtain ⟨st₁, hrun, hquiet, hs₁, -⟩ := ProtocolState.run_drain text encode hs hwriting hclose
    refine ⟨st₁, hrun, ?_⟩
    intro role hb t hgrace hgen _
    have hinv₁ := reachable_inv (h.of_run hrun)
    have hgrace₁ : st₁.net.inGrace t.now = false := by
      rw [NetState.inGrace, hquiet.cfg, hquiet.startedAt]
      exact hgrace
    exact heartbeat_converges hinv₁ hs₁ hwriting rfl role hb t hgrace₁ hgen

def emptyNetwork : ProtocolState :=
  let net := NetState.new (fun _ => [])
    ⟨"n", [], { SettingsCfg.default with restartGraceSecs := 0 }, ∅, ∅⟩ (Registry.new "u")
    ⟨none, none⟩ 0 0
  ⟨net, fun _ => View.new, [net.directory.published], 1⟩

def emptyNetworkHello : ProtocolState :=
  { emptyNetwork.apply (emptyNetwork.net.register IpNetText.byteText (fun _ => [])
      ⟨1, 7, .client, 100, 0, false, new 0⟩ 0 [] 1 2000 true) with nextSession := 2 }

theorem emptyNetworkHello_reachable :
    (generationProtocol IpNetText.byteText (fun _ => [])).Reachable emptyNetworkHello :=
  (Reachable.of_initial ⟨_, _, _, _, _, rfl, rfl, rfl⟩ :
    (generationProtocol IpNetText.byteText (fun _ => [])).Reachable emptyNetwork).of_step
    (e := .hello 0 7 .client 100 0 0 ⟨[], 1, 2000, true⟩) rfl

theorem generation_protocol_first_member :
    ∃ s, emptyNetworkHello.net.sessions[7]? = some s ∧ s.link.queue.length = 1 ∧
      ∃ st₁, (generationProtocol IpNetText.byteText (fun _ => [])).run emptyNetworkHello
          (ProtocolState.drainEvents 7 s.link) = some st₁ ∧
        ∀ p, (emptyNetworkHello.views p).gen ≤ (st₁.views p).gen := by
  have h := generation_protocol_safe_and_convergent emptyNetworkHello_reachable
  cases hs : emptyNetworkHello.net.sessions[7]? with
  | none => exact absurd hs (by decide)
  | some s =>
    have hfacts : (emptyNetworkHello.net.sessions[7]?).map
        (fun s => (s.link.queue.length, s.link.writing, s.link.closed)) = some (1, true, none) := by
      decide
    rw [hs, map_some, some.injEq, Prod.mk.injEq, Prod.mk.injEq] at hfacts
    obtain ⟨st₁, hrun, -⟩ := h.2.2 7 s hs hfacts.2.1 hfacts.2.2
    exact ⟨s, rfl, hfacts.1, st₁, hrun, h.1 _ _ hrun⟩

end Nqvpn
