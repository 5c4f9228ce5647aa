import Nqvpn.EngineDuplex
import Nqvpn.SessionChanges

/-!
# A peer that has gone silent

An endpoint that keeps sending to a peer and hears nothing back should start a new handshake, which a
peer that lost its session can answer. The main result says exactly when it does: unless the slot for a
replacement is taken, by an answer of ours that the peer never confirmed or by a handshake of ours that
timed out and has not been swept away.
-/

namespace Nqvpn

open SessionTable Engine Option

open Relation (ReflTransGen)

/-- An engine, and the time its clock shows. -/
structure TimedEngine where
  engine : Engine
  now : Nat

inductive EngineCall
  | pass (secs : Nat)
  | outbound (packet : Packet) (clock : Tai64n) (ephemeral : Nat)
  | inbound (datagram : Datagram) (clock : Tai64n) (ephemeral : Nat)
  | expire
  | reconcile (kind : EndpointKind) (view : Snapshot) (exits : List (IpNet × NodeId))
  | setMine (hosts nets : List IpNet)
  | setPolicy (policy : RoutePolicy)
  | setTrace (target : Option IpAddr)

namespace TimedEngine

variable (codec : EngineCodec)

def step (x : TimedEngine) : EngineCall → Option TimedEngine
  | .pass secs => some { x with now := x.now + secs }
  | .outbound packet clock ephemeral =>
    some { x with engine := (x.engine.outbound codec packet ⟨x.now, clock, ephemeral⟩).1 }
  | .inbound datagram clock ephemeral =>
    some { x with engine := (x.engine.inbound codec datagram ⟨x.now, clock, ephemeral⟩).1 }
  | .expire => some { x with engine := (x.engine.expireSessions x.now).1 }
  | .reconcile kind view exits => some { x with engine := x.engine.reconcile codec kind view exits }
  | .setMine hosts nets =>
    some { x with engine := { x.engine with peers := x.engine.peers.setMine hosts nets } }
  | .setPolicy policy => some { x with engine := { x.engine with peers := x.engine.peers.setPolicy policy } }
  | .setTrace target => some { x with engine := x.engine.setTrace target }

def system : TransitionSystem TimedEngine EngineCall where
  Initial x := ∃ myNodeId networkUuid key peers mtu lanes,
    x.engine = new myNodeId networkUuid key peers mtu lanes
  step := step codec

end TimedEngine

/-! ### What the slots of a peer can hold -/

namespace PeerSessions

/-- A handshake that is not finished is one of `own`, and a first one has no replacement beside it. -/
structure Orderly (own : PairSession → Prop) (now : Nat) (p : PeerSessions) : Prop where
  current : ∀ c, p.current = some c → c.isReady = false → own c ∧ p.next = none
  next : ∀ n, p.next = some n → n.isReady = false → own n
  awaiting : ∀ since, p.awaitingSince = some since → since ≤ now

/-- While there is a session to send on, we have been waiting for word since `limit` at the latest. -/
def Waits (limit : Nat) (p : PeerSessions) : Prop :=
  p.current.any (·.isReady) = true → ∃ since, since ≤ limit ∧ p.awaitingSince = some since

variable {own : PairSession → Prop} {now limit : Nat} {heard : Bool} {p p' : PeerSessions}
  {o o' : Option PeerSessions}

theorem Orderly.default : PeerSessions.default.Orderly own now :=
  ⟨fun _ h => (nomatch h), fun _ h => (nomatch h), fun _ h => (nomatch h)⟩

theorem Orderly.mono (h : p.Orderly own now) {later : Nat} (hle : now ≤ later) : p.Orderly own later :=
  ⟨h.current, h.next, fun since hs => (h.awaiting since hs).trans hle⟩

theorem Orderly.of_ready (hcurrent : ∀ c, p.current = some c → c.isReady)
    (hnext : ∀ n, p.next = some n → n.isReady)
    (hawaiting : ∀ since, p.awaitingSince = some since → since ≤ now) : p.Orderly own now :=
  ⟨fun c hc hunready => absurd (hcurrent c hc) (by simp [hunready]),
    fun n hn hunready => absurd (hnext n hn) (by simp [hunready]), hawaiting⟩

variable {s : PairSession}

theorem Orderly.of_promoted (hs : s.isReady) (hcurrent : p.current = some s) (hnext : p.next = none)
    (hawaiting : p.awaitingSince = none) : p.Orderly own now := by
  refine .of_ready (fun c hc => ?_) (fun n hn => ?_) (fun since hsince => ?_)
  · cases hcurrent.symm.trans hc
    exact hs
  · simp [hnext] at hn
  · simp [hawaiting] at hsince

theorem Orderly.setCurrent (h : p.Orderly own now) (hs : s.isReady) :
    { p with current := some s }.Orderly own now := by
  refine ⟨fun c hc hunready => ?_, h.next, h.awaiting⟩
  obtain rfl : s = c := some.inj hc
  simp [hs] at hunready

theorem Orderly.unawaited (h : p.Orderly own now) : { p with awaitingSince := none }.Orderly own now :=
  ⟨h.current, h.next, fun _ hs => (nomatch hs)⟩

theorem Orderly.promote (h : p.Orderly own now) (hnext : ∀ n, p.next = some n → n.isReady) :
    (p.promote now).Orderly own now := by
  unfold PeerSessions.promote
  split
  · exact h
  · rename_i new hnew
    exact .of_promoted (hnext new hnew) rfl rfl rfl

theorem isReady_of_unsealFrame {s' : PairSession} {ctr : Nat} {msg : Option Message} {v : Packet}
    (h : s.unsealFrame ctr msg = .ok (s', v)) : s'.isReady := by
  unfold PairSession.unsealFrame at h
  split at h
  · cases h
  · rename_i t n hstage
    split_ifs at h
    split at h
    · cases h
    · cases h
      simp [PairSession.isReady, hstage]

theorem Orderly.answered (h : p.Orderly own now) (hs : s.isReady) :
    (p.answered s).Orderly own now := by
  have hunawaited := h.unawaited
  unfold PeerSessions.answered
  dsimp only
  split_ifs with hready
  · refine .of_ready (fun c hc => ?_) (fun n hn => ?_) hunawaited.awaiting
    · rw [show p.current = some c from hc] at hready
      simpa using hready
    · obtain rfl : s = n := some.inj hn
      exact hs
  · exact hunawaited.setCurrent hs

theorem Orderly.change (h : ∀ p ∈ o, p.Orderly own now) (hc : Change own now heard o o') :
    ∀ p ∈ o', p.Orderly own now := by
  have hentry : (o.getD .default).Orderly own now := by
    cases o with
    | none => exact .default
    | some p => exact h p rfl
  rintro p ⟨⟩
  cases hc with
  | sealed _ _ hs | completed _ hs => exact (h _ rfl).setCurrent hs
  | @noted p =>
    refine ⟨(h p rfl).current, (h p rfl).next, fun since hsince => ?_⟩
    cases hold : p.awaitingSince with
    | none =>
      rw [hold] at hsince
      exact (some.inj hsince).ge
    | some earlier =>
      rw [hold] at hsince
      exact (h p rfl).awaiting since (hold.trans hsince)
  | @replacing p c n hcurrent hready hown =>
    refine ⟨fun c' hc' hunready => ?_, fun n' hn' _ => ?_, (h p rfl).awaiting⟩
    · cases hcurrent.symm.trans hc'
      simp [hready] at hunready
    · obtain rfl : n = n' := some.inj hn'
      exact hown
  | @started _ n hown _ =>
    refine ⟨fun c hc _ => ?_, fun _ hn => (nomatch hn), fun _ hs => (nomatch hs)⟩
    obtain rfl : n = c := some.inj hc
    exact ⟨hown, rfl⟩
  | @yielded p =>
    exact ⟨fun c hc hunready => ⟨((h p rfl).current c hc hunready).1, rfl⟩, fun _ hn => (nomatch hn),
      (h p rfl).awaiting⟩
  | answered _ hs => exact hentry.answered hs
  | replaced _ hs => exact .of_promoted hs rfl rfl rfl
  | @opened p p' ctr msg v _ hopen =>
    obtain ⟨s, s', hs, hslot⟩ := unsealAny_cases hopen
    rcases hslot with ⟨-, rfl⟩ | ⟨-, rfl⟩ | ⟨retired, -, rfl⟩
    · exact ((h p rfl).setCurrent (isReady_of_unsealFrame hs)).unawaited
    · exact .of_promoted (isReady_of_unsealFrame hs) rfl rfl rfl
    · exact ⟨(h p rfl).current, (h p rfl).next, fun _ hw => (nomatch hw)⟩

theorem Waits.change (h : ∀ p ∈ o, p.Waits limit) (hc : Change own now false o o') :
    ∀ p ∈ o', p.Waits limit := by
  rintro p ⟨⟩
  cases hc with
  | @sealed p c s hcurrent hready _ =>
    intro _
    exact h p rfl (by simp [hcurrent, hready])
  | @noted p =>
    intro hready
    obtain ⟨since, hle, hsince⟩ := h p rfl hready
    exact ⟨since, hle, by simp [hsince]⟩
  | @replacing p _ _ _ _ _ | @yielded p => exact h p rfl
  | started _ hunready =>
    intro hready
    simp [hunready] at hready
  | answered hheard | completed hheard | replaced hheard | opened hheard => cases hheard

/-! ### Sweeps and views -/

theorem Orderly.filter (h : p.Orderly own now) (kept kept' : PairSession → Bool) :
    { p with current := p.current.filter kept, next := p.next.filter kept' }.Orderly own now := by
  refine ⟨fun c hc hunready => ?_, fun n hn hunready => ?_, h.awaiting⟩
  · obtain ⟨hown, hnext⟩ := h.current c (filter_eq_some_iff.mp hc).1 hunready
    exact ⟨hown, by simp [hnext]⟩
  · exact h.next n (filter_eq_some_iff.mp hn).1 hunready

theorem Waits.filter (h : p.Waits limit) (kept kept' : PairSession → Bool) :
    { p with current := p.current.filter kept, next := p.next.filter kept' }.Waits limit := by
  intro hready
  obtain ⟨c, hc, hcready⟩ := (any_eq_true _ _).mp hready
  refine h ((any_eq_true _ _).mpr ⟨c, ?_, hcready⟩)
  exact (filter_eq_some_iff.mp hc).1

theorem Orderly.expire (h : p.Orderly own now) : (p.expire now).Orderly own now := by
  have hswept := h.filter (keeps now) (keeps now)
  unfold PeerSessions.expire
  dsimp only
  split_ifs with huse
  · have hnext : ∀ n, p.next.filter (keeps now) = some n → n.isReady := by
      intro n hn
      simpa [hn] using (Bool.and_eq_true_iff.mp huse).2
    have hpromoted := hswept.promote hnext
    exact { hpromoted with }
  · exact { hswept with }

/-- A sweep that finds the session we send on within its deadline does not take an answer into use. -/
def Spares (now : Nat) (p : PeerSessions) : Prop :=
  p.next.any (·.isReady) = true → p.current.any (keeps now) = true

theorem Waits.expire (h : p.Waits limit) (hspares : p.Spares now) : (p.expire now).Waits limit := by
  have hunused : ¬ ((p.current.filter (keeps now)).isNone && (p.next.filter (keeps now)).any (·.isReady)) := by
    intro huse
    obtain ⟨hnone, hanswer⟩ := Bool.and_eq_true_iff.mp huse
    obtain ⟨n, hn, hready⟩ := (any_eq_true _ _).mp hanswer
    have hnext : p.next = some n := (filter_eq_some_iff.mp hn).1
    obtain ⟨c, hc, hkept⟩ := (any_eq_true _ _).mp (hspares (by simp [hnext, hready]))
    simp [hc, hkept] at hnone
  unfold PeerSessions.expire
  dsimp only
  rw [if_neg hunused]
  exact h.filter (keeps now) (keeps now)

theorem Orderly.sync (h : p.Orderly own now) (want : Option Key) : (p.sync want).Orderly own now := by
  have hkept := h.filter (fun s => want = some s.peerStatic) (fun s => want = some s.peerStatic)
  exact { hkept with }

theorem Waits.sync (h : p.Waits limit) (want : Option Key) : (p.sync want).Waits limit :=
  h.filter (fun s => want = some s.peerStatic) (fun s => want = some s.peerStatic)

end PeerSessions

namespace SessionTable

theorem sessions_expire (t : SessionTable) (now : Nat) (a : NodeId) : (t.expire now).1.sessions[a]? =
    (t.sessions[a]?.map fun p => p.expire now).filter fun p => !p.isEmpty := by
  simp [expire]

theorem sessions_foldl_forget (t : SessionTable) (ids : List NodeId) :
    (ids.foldl forgetHandshakeTs t).sessions = t.sessions := by
  induction ids generalizing t with
  | nil => rfl
  | cons a ids ih => exact ih (t.forgetHandshakeTs a)

end SessionTable

namespace Engine

variable (codec : EngineCodec) (e : Engine)

theorem sessions_reconcile (kind : EndpointKind) (view : Snapshot) (exits : List (IpNet × NodeId)) :
    (e.reconcile codec kind view exits).sessions.sessions = e.sessions.sessions ∨
      ∃ want : NodeId → Option Key, ∀ a : NodeId, (e.reconcile codec kind view exits).sessions.sessions[a]? =
        (e.sessions.sessions[a]?.map (·.sync (want a))).filter (!·.isEmpty) := by
  cases kind with
  | relay => exact .inl rfl
  | client =>
    refine .inr ⟨fun a => (e.published codec view.members)[a]?.join, fun a => ?_⟩
    rw [sessions_reconcile_client]
    exact (sessions_syncView _ _ a).trans (by rw [sessions_foldl_forget])

end Engine

theorem forall_mem_filter_map {f : PeerSessions → PeerSessions} {P : PeerSessions → Prop} {o : Option PeerSessions}
    {kept : PeerSessions → Bool} (h : ∀ p ∈ o, P (f p)) : ∀ p ∈ (o.map f).filter kept, P p := by
  intro p hp
  obtain ⟨q, hq, rfl⟩ := map_eq_some_iff.mp (filter_eq_some_iff.mp hp).1
  exact h q hq

/-! ### Runs -/

namespace Engine

def Started (e : Engine) (peer : NodeId) (s : PairSession) : Prop :=
  s.initiator = true ∧ s.first.initiator = e.key ∧ s.first.prologue = ⟨e.networkUuid, e.myNodeId, peer⟩

theorem starts_started (e : Engine) (peer : NodeId) : e.Starts peer (e.Started peer) :=
  fun _ _ _ _ => ⟨rfl, rfl, rfl⟩

theorem started_congr {e e' : Engine} (h : e'.identity = e.identity) : e'.Started = e.Started := by
  simp only [identity, Prod.mk.injEq] at h
  obtain ⟨hnode, huuid, hkey⟩ := h
  funext peer s
  simp [Started, hnode, huuid, hkey]

end Engine

namespace TimedEngine

variable {codec : EngineCodec} {x y : TimedEngine} {call : EngineCall}

def Sound (x : TimedEngine) : Prop :=
  ∀ a : NodeId, ∀ p ∈ x.engine.sessions.sessions[a]?, p.Orderly (x.engine.Started a) x.now

theorem identity_step (hs : x.step codec call = some y) : y.engine.identity = x.engine.identity := by
  cases call with
  | outbound packet clock ephemeral =>
    cases hs
    exact (x.engine.same_outbound codec packet _).1
  | inbound datagram clock ephemeral =>
    cases hs
    exact (x.engine.same_inbound codec datagram _).1
  | reconcile kind view exits =>
    cases hs
    exact x.engine.identity_reconcile codec kind view exits
  | pass | expire | setMine | setPolicy | setTrace =>
    cases hs
    rfl

/-- What the passing of time, the changes of a peer's slots, a sweep and a view keep of them, every call
keeps. -/
theorem entry_step {peer : NodeId} {P : Nat → PeerSessions → Prop}
    (hpass : ∀ p secs, P x.now p → P (x.now + secs) p)
    (hchange : ∀ heard o o', (heard = true → ∃ datagram clock ephemeral,
        call = .inbound datagram clock ephemeral ∧ x.engine.Hears codec peer x.now datagram) →
      (∀ p ∈ o, P x.now p) → PeerSessions.Change (x.engine.Started peer) x.now heard o o' → ∀ p ∈ o', P x.now p)
    (hexpire : call = .expire → ∀ p ∈ x.engine.sessions.sessions[peer]?, P x.now p → P x.now (p.expire x.now))
    (hsync : ∀ p want, P x.now p → P x.now (p.sync want))
    (h : ∀ p ∈ x.engine.sessions.sessions[peer]?, P x.now p) (hs : x.step codec call = some y) :
    ∀ p ∈ y.engine.sessions.sessions[peer]?, P y.now p := by
  have hmoved {src : NodeId} {heard : Bool} {t : SessionTable}
      (hword : heard = true → ∃ datagram clock ephemeral,
        call = .inbound datagram clock ephemeral ∧ x.engine.Hears codec src x.now datagram)
      (hmoves : Moves src (x.engine.Started src) x.now heard x.engine.sessions t) :
      ∀ p ∈ t.sessions[peer]?, P x.now p := by
    by_cases hsrc : peer = src
    · subst hsrc
      obtain ⟨-, hentry⟩ := hmoves
      generalize t.sessions[peer]? = o at hentry ⊢
      induction hentry with
      | refl => exact h
      | tail _ hc ih => exact hchange _ _ _ hword ih hc
    · rw [hmoves.others peer hsrc]
      exact h
  cases call with
  | pass secs =>
    cases hs
    exact fun p hp => hpass p secs (h p hp)
  | outbound packet clock ephemeral =>
    cases hs
    rcases moves_outbound codec false x.engine.starts_started packet
      ⟨x.now, clock, ephemeral⟩ with hsame | ⟨owner, -, hmoves⟩
    · rw [hsame]
      exact h
    · refine hmoved ?_ hmoves
      nofun
  | inbound datagram clock ephemeral =>
    cases hs
    rcases moves_inbound codec x.engine x.engine.Started datagram
      ⟨x.now, clock, ephemeral⟩ with hsame | ⟨src, heard, hheard, hmoves⟩
    · rw [hsame]
      exact h
    · exact hmoved (fun htrue => ⟨_, _, _, rfl, hheard htrue⟩) hmoves
  | expire =>
    cases hs
    change ∀ p ∈ (x.engine.sessions.expire x.now).1.sessions[peer]?, P x.now p
    rw [sessions_expire]
    exact forall_mem_filter_map fun p hp => hexpire rfl p hp (h p hp)
  | reconcile kind view exits =>
    cases hs
    rcases x.engine.sessions_reconcile codec kind view exits with hsame | ⟨want, hview⟩
    · rw [hsame]
      exact h
    · rw [hview peer]
      exact forall_mem_filter_map fun p hp => hsync p (want peer) (h p hp)
  | setMine hosts nets | setPolicy policy | setTrace target =>
    cases hs
    exact h

theorem Sound.step (h : x.Sound) (hs : x.step codec call = some y) : y.Sound := by
  intro a
  rw [started_congr (identity_step hs)]
  exact entry_step (P := fun now p => p.Orderly (x.engine.Started a) now)
    (fun p secs hp => hp.mono (Nat.le_add_right _ _)) (fun _ _ _ _ hold hc => .change hold hc)
    (fun _ p _ hp => hp.expire) (fun p want hp => hp.sync want) (h a) hs

theorem sound_of_reachable (h : (system codec).Reachable x) : x.Sound := by
  refine h.invariant (fun s hs => ?_) (fun s e s' hsound he => hsound.step he)
  obtain ⟨myNodeId, networkUuid, key, peers, mtu, lanes, hnew⟩ := hs
  intro a p hp
  rw [hnew] at hp
  simp [new, SessionTable.default] at hp

/-- No word from the peer, and while an answer of ours waits for it the session we send on is within its
deadline at every sweep. -/
def Silent (codec : EngineCodec) (peer : NodeId) (x : TimedEngine) : EngineCall → Prop
  | .inbound datagram _ _ => ¬ x.engine.Hears codec peer x.now datagram
  | .expire => ∀ p ∈ x.engine.sessions.sessions[peer]?, p.Spares x.now
  | _ => True

theorem waits_step {peer : NodeId} {limit : Nat} (h : ∀ p ∈ x.engine.sessions.sessions[peer]?, p.Waits limit)
    (hsilent : Silent codec peer x call) (hs : x.step codec call = some y) :
    ∀ p ∈ y.engine.sessions.sessions[peer]?, p.Waits limit := by
  refine entry_step (P := fun _ p => p.Waits limit) (fun p secs hp => hp) (fun heard o o' hword hold hc => ?_)
    (fun hcall p hp hw => ?_) (fun p want hp => hp.sync want) h hs
  · obtain rfl : heard = false := by
      refine Bool.eq_false_iff.mpr fun htrue => ?_
      obtain ⟨datagram, clock, ephemeral, rfl, hears⟩ := hword htrue
      exact hsilent hears
    exact .change hold hc
  · subst hcall
    exact hw.expire (hsilent p hp)

end TimedEngine

/-! ### One send -/

namespace PeerSessions

/-- The slots after a packet was sent on `s`. -/
def sentOn (p : PeerSessions) (s : PairSession) (now : Nat) : PeerSessions :=
  { p with current := some s, awaitingSince := p.awaitingSince.or (some now), lastSent := now }

def Attempt (p : PeerSessions) (s : PairSession) : Prop :=
  (p.next = some s ∨ p.current = some s) ∧ s.isReady = false

end PeerSessions

namespace Engine

variable {codec : EngineCodec} {e : Engine} {peer : NodeId} {p : PeerSessions} {c s : PairSession} {now : Nat}
  {packet : Packet} {r : Reading}

theorem sessions_noting (hp : e.sessions.sessions[peer]? = some p) :
    (e.noting peer s now).sessions.sessions[peer]? = some (p.sentOn s now) := by
  simp only [noting, noteSent, put, sessions_modifyPeer, if_true, hp,
    map_some]
  rfl

variable {pk : Key} {n since : Nat} {own : PairSession → Prop}

theorem sessions_startRekey (hkey : e.peers.pubkeyOf codec.base64 peer = some pk)
    (hp : e.sessions.sessions[peer]? = some p) (r : Reading) :
    (e.startRekey codec peer r).1.sessions.sessions[peer]? = some { p with
      next := some (PairSession.initiateAt e.key peer pk e.networkUuid e.myNodeId r.now (e.nextTs r.clock)
        r.ephemeral).1 } := by
  simp [startRekey, hkey, initiateRekey, sessions_setEntry, entry, hp]

theorem rekeyDue_of_next {t : SessionTable} (hp : t.sessions[peer]? = some p) (hnext : p.next.isSome) :
    t.rekeyDue peer now = false := by
  unfold rekeyDue
  simp only [hp, hnext, if_true]
  split <;> rfl

theorem rekeyDue_of_waits {t : SessionTable} (hp : t.sessions[peer]? = some p) (hcurrent : p.current = some c)
    (hc : c.isReady) (hnext : p.next = none) (hsince : p.awaitingSince = some since)
    (hlong : unansweredRekeySecs ≤ now - since) :
    t.rekeyDue peer now := by
  unfold rekeyDue
  simp [hp, hcurrent, hc, hnext, hsince, hlong, Option.filter]

variable (codec packet r) in
theorem sessions_sendOn (hp : e.sessions.sessions[peer]? = some p) (hcurrent : p.current = some c) :
    (e.sendOn codec peer c packet r).1.sessions.sessions[peer]? = some { p.sentOn (afterSeal c packet) r.now with
      next := if (e.noting peer (afterSeal c packet) r.now).sessions.rekeyDue peer r.now then
        ((e.peers.pubkeyOf codec.base64 peer).map fun pk => (PairSession.initiateAt e.key peer pk e.networkUuid
          e.myNodeId r.now (e.nextTs r.clock) r.ephemeral).1).or p.next else p.next } := by
  have hget : e.sessions.get peer = some c := by rw [SessionTable.get, hp, bind_some, hcurrent]
  have hnoting : (e.noting peer (afterSeal c packet) r.now).sessions.sessions[peer]? =
      some (p.sentOn (afterSeal c packet) r.now) := sessions_noting hp
  rw [sendOn_eq hget]
  split_ifs
  · cases hkey : e.peers.pubkeyOf codec.base64 peer with
    | none =>
      have hkey' : (e.noting peer (afterSeal c packet) r.now).peers.pubkeyOf codec.base64 peer = none := hkey
      simp only [startRekey, hkey']
      exact hnoting
    | some pk => exact sessions_startRekey (e := e.noting peer (afterSeal c packet) r.now) hkey hnoting r
  · exact hnoting

variable (codec packet r) in
theorem sessions_sendOn_of_next (hp : e.sessions.sessions[peer]? = some p) (hcurrent : p.current = some c)
    (hnext : p.next.isSome) : (e.sendOn codec peer c packet r).1.sessions.sessions[peer]? =
      some (p.sentOn (afterSeal c packet) r.now) := by
  rw [sessions_sendOn codec packet r hp hcurrent, rekeyDue_of_next (sessions_noting hp) hnext]
  rfl

variable (packet r) in
theorem sessions_sendOn_of_waits (hp : e.sessions.sessions[peer]? = some p) (hcurrent : p.current = some c)
    (hc : c.isReady) (hnext : p.next = none) (hsince : p.awaitingSince = some since)
    (hlong : unansweredRekeySecs ≤ r.now - since) (hkey : e.peers.pubkeyOf codec.base64 peer = some pk) :
    (e.sendOn codec peer c packet r).1.sessions.sessions[peer]? = some
      { p.sentOn (afterSeal c packet) r.now with
        next := some (PairSession.initiateAt e.key peer pk e.networkUuid e.myNodeId r.now (e.nextTs r.clock)
          r.ephemeral).1 } := by
  have hdue : (e.noting peer (afterSeal c packet) r.now).sessions.rekeyDue peer r.now := by
    refine rekeyDue_of_waits (sessions_noting hp) rfl (isReady_afterSeal hc packet) hnext ?_ hlong
    simp [PeerSessions.sentOn, hsince]
  rw [sessions_sendOn codec packet r hp hcurrent, if_pos hdue, hkey]
  rfl

theorem sessions_queueFor_of_has (hhas : e.sessions.has peer) :
    (e.queueFor codec peer packet r).1.sessions.sessions = e.sessions.sessions := by
  unfold queueFor
  rw [if_pos hhas]
  rfl

theorem sessions_queueFor_of_not_has (hhas : e.sessions.has peer = false)
    (hkey : e.peers.pubkeyOf codec.base64 peer = some pk) :
    (e.queueFor codec peer packet r).1.sessions.sessions[peer]? = some { e.sessions.entry peer with
      current := some (PairSession.initiateAt e.key peer pk e.networkUuid e.myNodeId r.now (e.nextTs r.clock)
        r.ephemeral).1
      next := none
      awaitingSince := none } := by
  unfold queueFor
  simp only [hhas, Bool.false_eq_true, if_false, hkey, initiateAt, sessions_setEntry,
    if_true]
  rfl

/-- A send after a long wait either starts a handshake, when the slots are free for one, or leaves the
handshakes there are. -/
inductive Resend (now : Nat) (o o' : Option PeerSessions) : Prop
  | starts {p' : PeerSessions} {n : PairSession} (after : o' = some p') (attempt : p'.Attempt n)
      (fresh : n.establishedAt = now)
      (free : ∀ p ∈ o, p.next = none ∧ ∀ c, p.current = some c → c.isReady = true)
  | leaves {p p' : PeerSessions} (before : o = some p) (after : o' = some p')
      (attempts : ∀ s, p'.Attempt s ↔ p.Attempt s)
      (taken : p.next.isSome = true ∨ ∃ c, p.current = some c ∧ c.isReady = false)

theorem resend {limit : Nat} (howner : e.ownerFor packet = some peer)
    (hkey : e.peers.pubkeyOf codec.base64 peer = some pk)
    (hwaits : ∀ p ∈ e.sessions.sessions[peer]?, p.Waits limit) (hlong : limit + unansweredRekeySecs ≤ r.now) :
    Resend r.now e.sessions.sessions[peer]? (e.outbound codec packet r).1.sessions.sessions[peer]? := by
  rw [outbound_of_owner codec r howner]
  cases hready : (e.sessions.get peer).filter (·.isReady) with
  | some c =>
    obtain ⟨hget, hc⟩ := filter_eq_some_iff.mp hready
    obtain ⟨p, hp, hcurrent⟩ := bind_eq_some_iff.mp hget
    cases hnext : p.next with
    | none =>
      obtain ⟨since, hle, hsince⟩ := hwaits p hp (by simp [hcurrent, hc])
      have hafter := sessions_sendOn_of_waits packet r hp hcurrent hc hnext hsince (by omega) hkey
      refine .starts hafter ⟨.inl rfl, rfl⟩ rfl fun q hq => ?_
      cases hp.symm.trans hq
      exact ⟨hnext, fun c' hc' => some.inj (hcurrent.symm.trans hc') ▸ hc⟩
    | some n =>
      have hafter := sessions_sendOn_of_next codec packet r hp hcurrent
        (by rw [hnext, isSome_some])
      refine .leaves hp hafter (fun s => ?_) (.inl (by rw [hnext, isSome_some]))
      have hcurrents : ∀ s, s.isReady = false →
          ((p.sentOn (afterSeal c packet) r.now).current = some s ↔ p.current = some s) := by
        intro s hs
        have hs' := isReady_afterSeal hc packet
        rw [hcurrent]
        refine ⟨fun h => ?_, fun h => ?_⟩
        · obtain rfl : afterSeal c packet = s := some.inj h
          simp [hs] at hs'
        · obtain rfl : c = s := some.inj h
          simp [hs] at hc
      exact and_congr_left fun hs => or_congr Iff.rfl (hcurrents s hs)
  | none =>
    rw [elim_none]
    cases hhas : e.sessions.has peer with
    | false =>
      refine .starts (sessions_queueFor_of_not_has hhas hkey) ⟨.inr rfl, rfl⟩ rfl fun p hp => ?_
      simp only [SessionTable.has, show e.sessions.sessions[peer]? = some p from hp, any_some,
        Bool.or_eq_false_iff, isSome_eq_false_iff, isNone_iff_eq_none] at hhas
      exact ⟨hhas.2, fun c hc => absurd (hhas.1.symm.trans hc) (by simp)⟩
    | true =>
      rw [sessions_queueFor_of_has hhas]
      obtain ⟨p, hp, hsome⟩ := (any_eq_true _ _).mp hhas
      refine .leaves hp hp (fun s => Iff.rfl) ?_
      rcases Bool.or_eq_true_iff.mp hsome with hsome | hsome
      · obtain ⟨c, hc⟩ := isSome_iff_exists.mp hsome
        refine .inr ⟨c, hc, Bool.eq_false_iff.mpr fun hcready => ?_⟩
        simp [SessionTable.get, hp, hc, hcready, Option.filter] at hready
      · exact .inl hsome

/-! ### What a handshake in flight is good for -/

def Attempts (e : Engine) (peer : NodeId) (s : PairSession) : Prop :=
  e.sessions.nextInFlight peer = some s ∨ e.sessions.firstInFlight peer = some s

theorem attempts_iff (hown : ∀ s, own s → s.initiator)
    (h : ∀ p ∈ e.sessions.sessions[peer]?, p.Orderly own now) :
    e.Attempts peer s ↔ ∃ p ∈ e.sessions.sessions[peer]?, p.Attempt s := by
  unfold Attempts SessionTable.firstInFlight SessionTable.get SessionTable.nextInFlight
  cases hp : e.sessions.sessions[peer]? with
  | none => simp [Option.filter]
  | some p =>
    have horder := h p hp
    simp only [bind_some, PeerSessions.nextInFlight, filter_eq_some_iff, Bool.and_eq_true,
      Bool.not_eq_true', mem_some_iff, exists_eq_left', PeerSessions.Attempt]
    constructor
    · rintro (⟨hs, -, hunready⟩ | ⟨hs, hunready, -⟩)
      · exact ⟨.inl hs, hunready⟩
      · exact ⟨.inr hs, hunready⟩
    · rintro ⟨hs | hs, hunready⟩
      · exact .inl ⟨hs, hown s (horder.next s hs hunready), hunready⟩
      · exact .inr ⟨hs, hunready, hown s (horder.current s hs hunready).1⟩

/-- A peer that has lost its session with `e`, and can read the handshake `s`. -/
structure Lost (codec : EngineCodec) (e : Engine) (peer : NodeId) (s : PairSession) (other : Engine) : Prop where
  id : other.myNodeId = peer
  network : other.networkUuid = e.networkUuid
  key : other.key = s.first.responder
  knows : other.peers.pubkeyOf codec.base64 e.myNodeId = some e.key
  lost : other.sessions.sessions[e.myNodeId]? = none
  recent : ¬ other.Stale e.myNodeId s.first

/-- A peer that lost its session answers the handshake, and with the answer both send on the session it
makes. -/
def Mends (codec : EngineCodec) (e : Engine) (peer : NodeId) (s : PairSession) : Prop :=
  ∀ other, Lost codec e peer s other → ∀ r r' : Reading,
    let made : Transcript := ⟨s.first, r.ephemeral⟩
    let answering := other.onHandshake codec e.myNodeId (some (.initiation s.first)) r
    .send (other.frame tHandshake e.myNodeId (.reply made) none []) laneDefault ∈ answering.2 ∧
      answering.1.sendsOn e.myNodeId = some made ∧
      (e.onHandshake codec peer (some (.reply made)) r').1.sendsOn peer = some made

/-- The session we send on has transcript `t`. -/
def SendsOn (e : Engine) (peer : NodeId) (t : Transcript) : Prop :=
  ∃ s n, e.sessions.get peer = some s ∧ s.stage = .transport t n

variable {t : Transcript}

theorem SendsOn.sendsOn (h : e.SendsOn peer t) : e.sendsOn peer = some t := by
  obtain ⟨s, n, hget, hstage⟩ := h
  simp [Engine.sendsOn, hget, hstage]

theorem stage_sealPacket {s s' : PairSession} {ctr : Nat} {c : SealedPacket} (hstage : s.stage = .transport t n)
    (h : s.sealPacket packet = some (s', ctr, c)) : ∃ n', s'.stage = .transport t n' := by
  unfold PairSession.sealPacket at h
  simp only [hstage] at h
  split_ifs at h
  cases h
  exact ⟨_, rfl⟩

theorem Sends.sendsOn {e' : Engine} {es : List EngineEffect} (h : Sends peer now e e' es) (hon : e.SendsOn peer t) :
    e'.SendsOn peer t := by
  induction h with
  | nothing => exact hon
  | counted _ _ ih | queued _ _ ih => exact ih hon
  | @sealed e _ s s' _ _ _ _ _ hget hseal _ _ ih =>
    obtain ⟨c, n, hget', hstage⟩ := hon
    cases hget.symm.trans hget'
    obtain ⟨n', hstage'⟩ := stage_sealPacket hstage hseal
    exact ih ⟨s', n', e.sessions.get_put peer hget s', hstage'⟩
  | noted _ ih =>
    obtain ⟨c, n, hget, hstage⟩ := hon
    exact ih ⟨c, n, (get_noteSent _ _ _).trans hget, hstage⟩

theorem Lost.answers {other : Engine} (h : Lost codec e peer s other) (hstarted : e.Started peer s) (r : Reading) :
    let answering := other.onHandshake codec e.myNodeId (some (.initiation s.first)) r
    .send (other.frame tHandshake e.myNodeId (.reply ⟨s.first, r.ephemeral⟩) none []) laneDefault ∈ answering.2 ∧
      answering.1.SendsOn e.myNodeId ⟨s.first, r.ephemeral⟩ := by
  obtain ⟨-, hinitiator, hprologue⟩ := hstarted
  have hnone : other.awaited e.myNodeId = none := by
    simp [awaited, SessionTable.nextInFlight, SessionTable.firstInFlight, SessionTable.get, h.lost]
  have hinitiates : Initiates codec other e.myNodeId s.first :=
    ⟨h.key.symm, by rw [hprologue, h.network, h.id], by rw [h.knows, hinitiator]⟩
  have hheeds := other.heeds_onHandshake codec e.myNodeId (some (.initiation s.first)) r
  generalize other.onHandshake codec e.myNodeId (some (.initiation s.first)) r = result at hheeds ⊢
  obtain ⟨after, es⟩ := result
  -- Of what can come of the message only an answer is left.
  cases hheeds with
  | held _ hawaited | yieldedNext _ hawaited | yieldedFirst _ hawaited => cases hnone.symm.trans hawaited
  | refused _ _ hnot => exact absurd hinitiates (hnot _ rfl)
  | stale _ hm _ hstale =>
    cases hm
    exact absurd hstale h.recent
  | completed _ _ _ hread | replaced _ _ hread => exact absurd rfl (readReply_initiation hread)
  | answered _ hm _ _ ht _ hsends =>
    cases hm
    refine ⟨by simp, hsends.sendsOn ⟨answering e.myNodeId s.first r, 0, ?_, rfl⟩⟩
    simp [SessionTable.get, ht, SessionTable.installResponder, SessionTable.sessions_setEntry, SessionTable.entry, h.lost,
      PeerSessions.default]

theorem Attempts.awaited (h : ∀ p ∈ e.sessions.sessions[peer]?, p.Orderly own now) (hs : e.Attempts peer s) :
    e.awaited peer = some s.first := by
  rcases hs with hnext | hfirst
  · rw [Engine.awaited, hnext, some_or, map_some]
  · obtain ⟨p, hp, hcurrent⟩ := bind_eq_some_iff.mp (filter_eq_some_iff.mp hfirst).1
    -- A first handshake has no replacement beside it.
    have hnone := ((h p hp).current s hcurrent (isReady_of_firstInFlight hfirst)).2
    simp [Engine.awaited, nextInFlight, hp, PeerSessions.nextInFlight, hnone, hfirst]

theorem Attempts.finishes (h : ∀ p ∈ e.sessions.sessions[peer]?, p.Orderly own now) (hs : e.Attempts peer s)
    (ephemeral : Nat) (r : Reading) :
    (e.onHandshake codec peer (some (.reply ⟨s.first, ephemeral⟩)) r).1.SendsOn peer ⟨s.first, ephemeral⟩ := by
  have hawaited := hs.awaited h
  have hreads : NoiseIK.readReply s.first (some (.reply ⟨s.first, ephemeral⟩)) = some ⟨s.first, ephemeral⟩ :=
    NoiseIK.readReply_eq_some.mpr ⟨rfl, rfl⟩
  have hheeds := e.heeds_onHandshake codec peer (some (.reply ⟨s.first, ephemeral⟩)) r
  generalize e.onHandshake codec peer (some (.reply ⟨s.first, ephemeral⟩)) r = result at hheeds ⊢
  obtain ⟨after, es⟩ := result
  cases hheeds with
  | held _ hfirst hread | yieldedNext _ hfirst hread | yieldedFirst _ hfirst hread =>
    cases hawaited.symm.trans hfirst
    cases hreads.symm.trans hread
  | refused hnone | stale hnone | answered hnone => cases hawaited.symm.trans hnone
  | @completed _ _ c t _ _ hfirst _ hread hsends =>
    have hget : e.sessions.get peer = some c := (filter_eq_some_iff.mp hfirst).1
    cases (NoiseIK.readReply_eq_some.mp hread).1
    exact hsends.sendsOn ⟨_, 0, e.sessions.get_put peer hget _, rfl⟩
  | @replaced _ _ n t _ _ hnext _ hread hsends =>
    obtain ⟨p, hp, -⟩ := bind_eq_some_iff.mp hnext
    cases (NoiseIK.readReply_eq_some.mp hread).1
    refine hsends.sendsOn ⟨{ n with stage := .transport ⟨s.first, ephemeral⟩ 0 }, 0, ?_, rfl⟩
    rw [SessionTable.promote_putNext]
    simp [SessionTable.get, SessionTable.sessions_modifyPeer, hp, PeerSessions.promote]

theorem Attempts.mends (h : ∀ p ∈ e.sessions.sessions[peer]?, p.Orderly (e.Started peer) now)
    (hs : e.Attempts peer s) : e.Mends codec peer s := by
  intro other hlost r r'
  obtain ⟨p, hp, hslot, hunready⟩ := (attempts_iff (fun _ hown => hown.1) h).mp hs
  have hstarted : e.Started peer s := by
    rcases hslot with hnext | hcurrent
    · exact (h p hp).next s hnext hunready
    · exact ((h p hp).current s hcurrent hunready).1
  obtain ⟨hreply, hanswer⟩ := hlost.answers hstarted r
  exact ⟨hreply, hanswer.sendsOn, (hs.finishes h r.ephemeral r').sendsOn⟩

/-! ### Whether a handshake is in flight -/

/-- A handshake we started within the timeout is in flight, and mends what the peer lost. -/
def Rehandshakes (codec : EngineCodec) (e : Engine) (peer : NodeId) (now : Nat) : Prop :=
  ∃ s, e.Attempts peer s ∧ now - s.establishedAt < handshakeTimeoutSecs ∧ e.Mends codec peer s

/-- A handshake of the peer that we answered waits for the peer's first frame on it. -/
def Unconfirmed (e : Engine) (peer : NodeId) : Prop :=
  ∃ p ∈ e.sessions.sessions[peer]?, p.next.any (·.isReady) = true

def Overdue (e : Engine) (peer : NodeId) (now : Nat) : Prop :=
  ∃ s, e.Attempts peer s ∧ handshakeTimeoutSecs ≤ now - s.establishedAt

theorem one_attempt (h : p.Orderly own now)
    (htaken : p.next.isSome ∨ ∃ c, p.current = some c ∧ c.isReady = false) :
    (p.next.any (·.isReady) ∧ ∀ s, ¬ p.Attempt s) ∨
      p.next.any (·.isReady) = false ∧ ∃ s, p.Attempt s ∧ ∀ s', p.Attempt s' → s' = s := by
  rcases htaken with hsome | ⟨c, hc, hunready⟩
  · obtain ⟨n, hn⟩ := isSome_iff_exists.mp hsome
    -- A first handshake would have nothing beside it.
    have hcurrent : ∀ s, p.current = some s → s.isReady := by
      intro s hs
      by_contra hunready
      have hnone := (h.current s hs (Bool.eq_false_iff.mpr hunready)).2
      rw [hn] at hnone
      cases hnone
    have honly : ∀ s', p.Attempt s' → s' = n := by
      rintro s' ⟨hs' | hs', hunready⟩
      · exact some.inj (hs'.symm.trans hn)
      · exact absurd (hcurrent s' hs') (by simp [hunready])
    cases hready : n.isReady with
    | true =>
      refine .inl ⟨by simp [hn, hready], fun s hs => ?_⟩
      have hunready := hs.2
      rw [honly s hs, hready] at hunready
      cases hunready
    | false => exact .inr ⟨by simp [hn, hready], n, ⟨.inl hn, hready⟩, honly⟩
  · have hnext := (h.current c hc hunready).2
    refine .inr ⟨by simp [hnext], c, ⟨.inr hc, hunready⟩, ?_⟩
    rintro s' ⟨hs' | hs', -⟩
    · rw [hnext] at hs'
      cases hs'
    · exact some.inj (hs'.symm.trans hc)

/-- After a send, a handshake within the timeout is in flight unless the slot was taken by something else. -/
theorem Resend.fresh_iff {o o' : Option PeerSessions} (h : Resend now o o')
    (horder : ∀ p ∈ o, p.Orderly own now) :
    (∃ s, (∃ p ∈ o', p.Attempt s) ∧ now - s.establishedAt < handshakeTimeoutSecs) ↔
      ¬ (∃ p ∈ o, p.next.any (·.isReady)) ∧
        ¬ ∃ s, (∃ p ∈ o, p.Attempt s) ∧ handshakeTimeoutSecs ≤ now - s.establishedAt := by
  cases h with
  | @starts p' n after attempt fresh free =>
    refine iff_of_true ⟨n, ⟨p', after, attempt⟩, ?_⟩ ⟨?_, ?_⟩
    · rw [fresh, Nat.sub_self]
      decide
    · rintro ⟨p, hp, hready⟩
      simp [(free p hp).1] at hready
    · rintro ⟨s, ⟨p, hp, hs | hs, hunready⟩, -⟩
      · simp [(free p hp).1] at hs
      · simp [(free p hp).2 s hs] at hunready
  | @leaves p p' before after attempts taken =>
    subst before after
    simp only [mem_some_iff, exists_eq_left', attempts]
    rcases one_attempt (horder p rfl) taken with ⟨hready, hnone⟩ | ⟨hready, s, hs, honly⟩
    · exact iff_of_false (fun ⟨s, hs, _⟩ => hnone s hs) fun hboth => hboth.1 hready
    · refine ⟨fun ⟨s', hs', hfresh⟩ => ⟨by simp [hready], fun ⟨s'', hs'', hover⟩ => ?_⟩, fun hboth => ⟨s, hs, ?_⟩⟩
      · rw [honly s' hs'] at hfresh
        rw [honly s'' hs''] at hover
        omega
      · by_contra hlate
        exact hboth.2 ⟨s, hs, by omega⟩

end Engine

namespace TimedEngine

section Unanswered

variable {codec : EngineCodec} {x y z : TimedEngine} {peer : NodeId} {packet packet' : Packet} {clock clock' : Tai64n}
  {ephemeral ephemeral' : Nat} {calls : List EngineCall} {pk : Key}

theorem waits_after_send (hsound : x.Sound) (hready : x.engine.sessions.isReady peer)
    (hto : x.engine.ownerFor packet = some peer) (hs : x.step codec (.outbound packet clock ephemeral) = some y) :
    ∀ p ∈ y.engine.sessions.sessions[peer]?, p.Waits x.now := by
  obtain ⟨c, hget, hc⟩ := (any_eq_true _ _).mp hready
  obtain ⟨p, hp, hcurrent⟩ := bind_eq_some_iff.mp hget
  cases hs
  have hfilter : (x.engine.sessions.get peer).filter (·.isReady) = some c :=
    filter_eq_some_iff.mpr ⟨hget, hc⟩
  intro q hq
  simp only [outbound_of_owner codec _ hto, hfilter, elim_some] at hq
  cases (sessions_sendOn codec packet ⟨x.now, clock, ephemeral⟩ hp hcurrent).symm.trans hq
  intro _
  cases hsince : p.awaitingSince with
  | none => exact ⟨x.now, Nat.le_refl _, by simp [PeerSessions.sentOn, hsince]⟩
  | some since =>
    exact ⟨since, (hsound peer p hp).awaiting since hsince, by simp [PeerSessions.sentOn, hsince]⟩

/-- Two sends with a long silence between them leave a handshake of ours in flight, one that can mend what the
peer lost, unless an answer of ours waits unconfirmed or a handshake of ours that timed out has not been
swept away. -/
theorem rehandshakes_iff (hreach : (system codec).Reachable x) (hready : x.engine.sessions.isReady peer = true)
    (hto : x.engine.ownerFor packet = some peer) (hfirst : x.step codec (.outbound packet clock ephemeral) = some y)
    (hrun : (system codec).RunWith (Silent codec peer) y calls z) (hlong : x.now + unansweredRekeySecs ≤ z.now)
    (hto' : z.engine.ownerFor packet' = some peer) (hkey : z.engine.peers.pubkeyOf codec.base64 peer = some pk) :
    (z.engine.outbound codec packet' ⟨z.now, clock', ephemeral'⟩).1.Rehandshakes codec peer z.now ↔
      ¬ z.engine.Unconfirmed peer ∧ ¬ z.engine.Overdue peer z.now := by
  have hsound := sound_of_reachable hreach
  obtain ⟨hz, hwaits⟩ : z.Sound ∧ ∀ p ∈ z.engine.sessions.sessions[peer]?, p.Waits x.now :=
    hrun.invariant (P := fun s => s.Sound ∧ ∀ p ∈ s.engine.sessions.sessions[peer]?, p.Waits x.now)
      (fun s call s' hs hsilent hstep => ⟨hs.1.step hstep, waits_step hs.2 hsilent hstep⟩)
      ⟨hsound.step hfirst, waits_after_send hsound hready hto hfirst⟩
  have hlast : z.step codec (.outbound packet' clock' ephemeral') =
      some ⟨(z.engine.outbound codec packet' ⟨z.now, clock', ephemeral'⟩).1, z.now⟩ := rfl
  have hafter := hz.step hlast
  have hresend := resend (r := ⟨z.now, clock', ephemeral'⟩) hto' hkey hwaits hlong
  have hbefore {s : PairSession} : z.engine.Attempts peer s ↔ ∃ p ∈ z.engine.sessions.sessions[peer]?, p.Attempt s :=
    attempts_iff (fun _ hown => hown.1) (hz peer)
  have hattempts {s : PairSession} : (z.engine.outbound codec packet' ⟨z.now, clock', ephemeral'⟩).1.Attempts peer s ↔
      ∃ p ∈ (z.engine.outbound codec packet' ⟨z.now, clock', ephemeral'⟩).1.sessions.sessions[peer]?, p.Attempt s :=
    attempts_iff (fun _ hown => hown.1) (hafter peer)
  have hiff := hresend.fresh_iff (hz peer)
  simp only [← hbefore, ← hattempts] at hiff
  refine Iff.trans ⟨fun ⟨s, hs, hfresh, _⟩ => ⟨s, hs, hfresh⟩, fun ⟨s, hs, hfresh⟩ => ⟨s, hs, hfresh, ?_⟩⟩ hiff
  exact hs.mends (hafter peer)

end Unanswered

namespace SilenceExample

open Net.DeliveryExample

def established : TimedEngine := ⟨completed.1, 100⟩

theorem step_frame {x : TimedEngine} {f : OutFrame} (hf : Net.FrameFits f)
    (hdst : f.header.dstId = x.engine.myNodeId) (clock : Tai64n) (ephemeral : Nat) :
    (system numbering).step x (.inbound (f.bytes numbering.message) clock ephemeral) =
      some ⟨(Net.receive numbering x.engine f ⟨x.now, clock, ephemeral⟩).1, x.now⟩ := by
  rw [← Net.inbound_bytes hf hdst]
  rfl

theorem reachable_established : (system numbering).Reachable established := by
  have hnew : (system numbering).Reachable ⟨nodeA, 100⟩ := .of_initial ⟨1, "u", keyA, nodeA.peers, 1500, 1, rfl⟩
  have hinitiated : (system numbering).Reachable ⟨initiated.1, 100⟩ :=
    hnew.of_step (e := .outbound packet ⟨100, 0⟩ 0) rfl
  exact hinitiated.of_step (step_frame (f := replyFrame) (by decide +kernel) rfl ⟨100, 0⟩ 2)

def sent : TimedEngine := ⟨(established.engine.outbound numbering packet ⟨100, ⟨100, 0⟩, 3⟩).1, 100⟩

def asked : Initiation := ⟨keyB, keyA, ⟨"u", 2, 1⟩, Tai64n.toBytes ⟨100, 0⟩, 5⟩

def askedFrame : OutFrame := ⟨.new tHandshake 2 1 0, none, .initiation asked⟩

def waiting : TimedEngine :=
  ⟨(established.engine.onHandshake numbering 2 (some (.initiation asked)) ⟨100, ⟨100, 0⟩, 6⟩).1, 100⟩

theorem reachable_waiting : (system numbering).Reachable waiting :=
  reachable_established.of_step (step_frame (f := askedFrame) (by decide +kernel) rfl ⟨100, 0⟩ 6)

def sentBeside : TimedEngine := ⟨(waiting.engine.outbound numbering packet ⟨100, ⟨100, 0⟩, 7⟩).1, 100⟩

end SilenceExample

open SilenceExample Net.DeliveryExample in
/-- Node 1 sends, hears nothing for ten seconds and sends again. -/
theorem rehandshakes_iff_unanswered :
    (sent.engine.outbound numbering packet ⟨110, ⟨110, 0⟩, 4⟩).1.Rehandshakes numbering 2 110 := by
  have hfirst : established.step numbering (.outbound packet ⟨100, 0⟩ 3) = some sent := rfl
  have hrun : (system numbering).RunWith (Silent numbering 2) sent [.pass 10] ⟨sent.engine, 110⟩ :=
    .cons trivial rfl .nil
  have hkey : sent.engine.peers.pubkeyOf numbering.base64 2 = some keyB := by decide +kernel
  refine (rehandshakes_iff reachable_established (by decide +kernel) (by decide +kernel) hfirst hrun (by decide)
    (by decide +kernel) hkey).mpr ⟨?_, ?_⟩
  · rintro ⟨p, hp, hready⟩
    have hnext : sent.engine.sessions.sessions[2]?.map (·.next) = some none := by decide +kernel
    rw [show sent.engine.sessions.sessions[2]? = some p from hp, map_some, some.injEq] at hnext
    simp [hnext] at hready
  · have hnone : sent.engine.sessions.nextInFlight 2 = none ∧ sent.engine.sessions.firstInFlight 2 = none := by
      decide +kernel
    rintro ⟨s, hs | hs, -⟩
    · cases hnone.1.symm.trans hs
    · cases hnone.2.symm.trans hs

open SilenceExample Net.DeliveryExample in
/-- Node 1 sends twice, ten seconds apart, and hears nothing. Its session is ready and far from its deadline, and
no handshake is in flight after the second send. -/
theorem unconfirmed_answer_blocks :
    (system numbering).Reachable waiting ∧ waiting.engine.sessions.isReady 2 = true ∧
      (waiting.engine.sessions.get 2).any (·.mustExpire 110) = false ∧ waiting.engine.ownerFor packet = some 2 ∧
      waiting.step numbering (.outbound packet ⟨100, 0⟩ 7) = some sentBeside ∧
      (system numbering).RunWith (Silent numbering 2) sentBeside [.pass 10] ⟨sentBeside.engine, 110⟩ ∧
      waiting.now + unansweredRekeySecs ≤ 110 ∧ sentBeside.engine.ownerFor packet = some 2 ∧
      sentBeside.engine.peers.pubkeyOf numbering.base64 2 = some keyB ∧
      ¬ (sentBeside.engine.outbound numbering packet ⟨110, ⟨110, 0⟩, 8⟩).1.Rehandshakes numbering 2 110 := by
  refine ⟨reachable_waiting, by decide +kernel, by decide +kernel, by decide +kernel, rfl, .cons trivial rfl .nil,
    by decide, by decide +kernel, by decide +kernel, ?_⟩
  set after := (sentBeside.engine.outbound numbering packet ⟨110, ⟨110, 0⟩, 8⟩).1 with hafter
  have hnone : after.sessions.nextInFlight 2 = none ∧ after.sessions.firstInFlight 2 = none := by
    decide +kernel
  rintro ⟨s, hs | hs, -⟩
  · cases hnone.1.symm.trans hs
  · cases hnone.2.symm.trans hs

end TimedEngine

end Nqvpn
