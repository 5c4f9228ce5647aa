import Nqvpn.Engine

/-!
# What a call of the engine does

A call is about one peer. A packet from the device is sealed and sent or waits, and after that a handshake may
begin. A handshake message completes a handshake of ours or is answered, after a handshake of ours may have
given way to it; a data frame is opened by one of the sessions. What there is to send is sealed after that.
Whatever is said about the calls of an engine is read off these acts.
-/

namespace Nqvpn

open SessionTable NoiseIK Std.ExtTreeMap Option

namespace SessionTable

variable {t t' : SessionTable} {peer : NodeId}

theorem put_put (s s' : PairSession) : (t.put peer s).put peer s' = t.put peer s' := by
  have hsame : ((t.put peer s).put peer s').sessions = (t.put peer s').sessions := by
    refine ext_getElem? fun a => ?_
    simp only [put, sessions_modifyPeer, if_true]
    split_ifs
    · rw [Option.map_map]
      rfl
    · rfl
  exact congrArg (fun sessions => { t with sessions }) hsame

theorem put_self {c : PairSession} (hget : t.get peer = some c) : t.put peer c = t := by
  obtain ⟨p, hp, hcurrent⟩ := bind_eq_some_iff.mp hget
  have hsame : (t.put peer c).sessions = t.sessions := by
    refine ext_getElem? fun a => ?_
    rw [put, sessions_modifyPeer]
    split_ifs with ha
    · subst ha
      rw [hp, map_some, ← hcurrent]
    · rfl
  exact congrArg (fun sessions => { t with sessions }) hsame

theorem entry_of_rekeyDue {now : Nat} (h : t.rekeyDue peer now) :
    ∃ p c, t.sessions[peer]? = some p ∧ p.current = some c ∧ c.isReady ∧ p.next = none := by
  unfold rekeyDue at h
  split at h
  · cases h
  · rename_i p hp
    split at h
    · cases h
    · rename_i c hc
      obtain ⟨hcurrent, hready⟩ := filter_eq_some_iff.mp hc
      by_cases hnext : p.next.isSome
      · simp [hnext] at h
      · exact ⟨p, c, hp, hcurrent, hready, by simpa using hnext⟩

theorem unsealFrame_entry {ctr now : Nat} {msg : Option Message} {inner : Packet}
    (h : t.unsealFrame peer ctr msg now = .ok (t', inner)) : ∃ p p', t.sessions[peer]? = some p ∧
      p.unsealAny ctr msg now = .ok (p', inner) ∧ t' = t.setEntry peer { p' with awaitingSince := none } := by
  unfold unsealFrame at h
  split at h
  · cases h
  · rename_i p hp
    split at h
    · rename_i p' v hany
      cases h
      exact ⟨p, p', hp, hany, rfl⟩
    · cases h
    · cases h

end SessionTable

namespace Engine

/-! ### Handshakes of ours and of the peer -/

def awaited (e : Engine) (peer : NodeId) : Option Initiation :=
  ((e.sessions.nextInFlight peer).or (e.sessions.firstInFlight peer)).map (·.first)

def InFlight (e : Engine) (peer : NodeId) (first : Initiation) : Prop :=
  (e.sessions.nextInFlight peer).map (·.first) = some first ∨
    (e.sessions.firstInFlight peer).map (·.first) = some first

def Initiates (codec : EngineCodec) (e : Engine) (peer : NodeId) (m : Initiation) : Prop :=
  m.responder = e.key ∧ m.prologue = ⟨e.networkUuid, peer, e.myNodeId⟩ ∧
    e.peers.pubkeyOf codec.base64 peer = some m.initiator

def Stale (e : Engine) (peer : NodeId) (m : Initiation) : Prop :=
  (e.sessions.lastHandshakeTs peer m.initiator).any (Tai64n.fromPayload m.payload ≤ ·) = true

section InFlight

variable {e : Engine} {peer : NodeId}

theorem awaited_eq_none : e.awaited peer = none ↔
    e.sessions.nextInFlight peer = none ∧ e.sessions.firstInFlight peer = none := by
  simp [awaited]

theorem isReady_of_nextInFlight {n : PairSession} (h : e.sessions.nextInFlight peer = some n) :
    n.isReady = false := by
  obtain ⟨p, -, hn⟩ := bind_eq_some_iff.mp h
  have hflight := (filter_eq_some_iff.mp hn).2
  simp only [Bool.and_eq_true, Bool.not_eq_true'] at hflight
  exact hflight.2

theorem isReady_of_firstInFlight {s : PairSession} (h : e.sessions.firstInFlight peer = some s) :
    s.isReady = false := by
  have hflight := (filter_eq_some_iff.mp h).2
  simp only [Bool.and_eq_true, Bool.not_eq_true'] at hflight
  exact hflight.1

theorem inFlight_remove (t : SessionTable) (peer : NodeId) :
    ((t.takePending peer).1.remove peer).nextInFlight peer = none ∧
      ((t.takePending peer).1.remove peer).firstInFlight peer = none := by
  simp [SessionTable.nextInFlight, SessionTable.firstInFlight, SessionTable.get,
    SessionTable.remove, SessionTable.takePending]

end InFlight

variable {packet : Packet}

theorem isReady_sealPacket {s s' : PairSession} {ctr : Nat} {c : SealedPacket}
    (h : s.sealPacket packet = some (s', ctr, c)) : s'.isReady := by
  unfold PairSession.sealPacket at h
  split at h
  · cases h
  · split_ifs at h
    cases h
    rfl

theorem queue_frame (peer : NodeId) (t : SessionTable) (packets : List Packet) :
    let t' := packets.foldl (fun t p => (t.queue peer p).1) t
    t'.sessions = t.sessions ∧ t'.lastHandshakeTs = t.lastHandshakeTs := by
  induction packets generalizing t with
  | nil => exact ⟨rfl, rfl⟩
  | cons p rest ih => exact ih _

/-! ### Acts -/

/-- Packets are sealed for the peer and sent, or put into its queue or taken from it. -/
inductive Sends (peer : NodeId) (now : Nat) : Engine → Engine → List EngineEffect → Prop
  | nothing (e : Engine) : Sends peer now e e []
  | counted {e e' : Engine} {es : List EngineEffect} (c : EngineCounter) : Sends peer now e e' es →
      Sends peer now e e' (.count c :: es)
  | sealed {e e' : Engine} {s s' : PairSession} {packet : Packet} {ctr : Nat} {c : SealedPacket}
      {x : EngineEffect} {es : List EngineEffect} : e.sessions.get peer = some s →
      s.sealPacket packet = some (s', ctr, c) →
      (∃ lane, x = .send (e.dataFrame peer c ctr packet) lane ∨
        x = .sendCounted (e.dataFrame peer c ctr packet) lane) →
      Sends peer now { e with sessions := e.sessions.put peer s' } e' es → Sends peer now e e' (x :: es)
  | noted {e e' : Engine} {es : List EngineEffect} :
      Sends peer now { e with sessions := e.sessions.noteSent peer now } e' es → Sends peer now e e' es
  | queued {e e' : Engine} {pending : Std.ExtTreeMap NodeId (List Packet)} {es : List EngineEffect} :
      (∀ a, a ≠ peer → pending[a]? = e.sessions.pending[a]?) →
      Sends peer now { e with sessions := { e.sessions with pending } } e' es → Sends peer now e e' es

/-- A handshake of ours begins, if any: in place of a session in use, or where there is none. -/
inductive Asks (codec : EngineCodec) (peer : NodeId) (r : Reading) : Engine → Engine → List EngineEffect → Prop
  | nothing (e : Engine) : Asks codec peer r e e []
  | rekey {e : Engine} {p : PeerSessions} {c : PairSession} {pk : Key} (packet : Packet) :
      e.peers.pubkeyOf codec.base64 peer = some pk → e.sessions.sessions[peer]? = some p →
      p.current = some c → c.isReady = true → p.next = none →
      Asks codec peer r e
        { e with
          sessions := (e.sessions.initiateRekey e.key peer pk e.networkUuid e.myNodeId r.now (e.nextTs r.clock)
            r.ephemeral).1
          lastTs := e.nextTs r.clock }
        (e.startedEffects peer packet (some (e.sessions.initiateRekey e.key peer pk e.networkUuid e.myNodeId
          r.now (e.nextTs r.clock) r.ephemeral).2))
  | first {e : Engine} {pk : Key} (packet : Packet) : e.peers.pubkeyOf codec.base64 peer = some pk →
      e.sessions.has peer = false →
      Asks codec peer r e
        { e with
          sessions := (e.sessions.initiateAt e.key peer pk e.networkUuid e.myNodeId r.now (e.nextTs r.clock)
            r.ephemeral).1
          lastTs := e.nextTs r.clock }
        (e.startedEffects peer packet (some (e.sessions.initiateAt e.key peer pk e.networkUuid e.myNodeId
          r.now (e.nextTs r.clock) r.ephemeral).2))

def answering (peer : NodeId) (m : Initiation) (r : Reading) : PairSession :=
  ⟨.transport ⟨m, r.ephemeral⟩ 0, peer, false, .default, r.now, 0⟩

/-- A handshake message of the peer is ignored or heeded. What waited for a session is sent when there is one. -/
inductive Heeds (codec : EngineCodec) (peer : NodeId) (r : Reading) (msg : Option Message) :
    Engine → Engine → List EngineEffect → Prop
  | held {e : Engine} {first : Initiation} : peer ≤ e.myNodeId → e.awaited peer = some first →
      readReply first msg = none → Heeds codec peer r msg e e []
  | refused {e : Engine} {c : EngineCounter} : e.awaited peer = none → c = .dropSealFailed ∨ c = .dropKeyMismatch →
      (∀ m, msg = some (.initiation m) → ¬ Initiates codec e peer m) → Heeds codec peer r msg e e [.count c]
  | stale {e : Engine} {m : Initiation} : e.awaited peer = none → msg = some (.initiation m) →
      Initiates codec e peer m → e.Stale peer m → Heeds codec peer r msg e e [.count .dropStaleHandshake]
  | yieldedNext {e e' : Engine} {first : Initiation} {es : List EngineEffect} : e.myNodeId < peer →
      e.awaited peer = some first → readReply first msg = none →
      Heeds codec peer r msg { e with sessions := e.sessions.dropNext peer } e' es →
      Heeds codec peer r msg e e' (.count .handshakesYielded :: es)
  | yieldedFirst {e e' : Engine} {first : Initiation} {es : List EngineEffect} : e.myNodeId < peer →
      e.awaited peer = some first → readReply first msg = none →
      Heeds codec peer r msg { e with sessions := (e.sessions.takePending peer).1.remove peer } e' es →
      Heeds codec peer r msg e e' (.count .handshakesYielded :: es)
  | completed {e e' : Engine} {s : PairSession} {t : Transcript} {es : List EngineEffect} :
      e.sessions.nextInFlight peer = none → e.sessions.firstInFlight peer = some s → s.stage = .handshake t.first →
      readReply t.first msg = some t →
      Sends peer r.now { e with sessions := e.sessions.put peer { s with stage := .transport t 0 } } e' es →
      Heeds codec peer r msg e e' (.count .handshakesCompleted :: es)
  | replaced {e e' : Engine} {n : PairSession} {t : Transcript} {es es' : List EngineEffect} :
      e.sessions.nextInFlight peer = some n → n.stage = .handshake t.first →
      readReply t.first msg = some t →
      Sends peer r.now { e with
        sessions := (e.sessions.putNext peer { n with stage := .transport t 0 }).promote peer r.now } e' es →
      es'.Perm es →
      Heeds codec peer r msg e e' (.count .handshakesCompleted :: .count .rekeysCompleted :: es')
  | answered {e e' : Engine} {m : Initiation} {t : SessionTable} {es : List EngineEffect} :
      e.awaited peer = none → msg = some (.initiation m) → Initiates codec e peer m → ¬ e.Stale peer m →
      t.sessions = (e.sessions.installResponder peer (answering peer m r)).sessions →
      (t.lastHandshakeTs = fun id key => if id = peer ∧ key = m.initiator then some (.fromPayload m.payload)
        else e.sessions.lastHandshakeTs id key) →
      Sends peer r.now { e with sessions := t } e' es →
      Heeds codec peer r msg e e' (.count .handshakesCompleted ::
        .send (e.frame tHandshake peer (.reply ⟨m, r.ephemeral⟩) none []) laneDefault :: es)

variable {codec : EngineCodec} {e e' e'' : Engine} {peer : NodeId} {now : Nat} {r : Reading}
  {es es' : List EngineEffect} {msg : Option Message}

/-! ### What is left alone -/

theorem Sends.only (h : Sends peer now e e' es) : e' = { e with sessions := e'.sessions } := by
  induction h with
  | nothing => rfl
  | counted _ _ ih | sealed _ _ _ _ ih | noted _ ih | queued _ _ ih => exact ih

theorem Sends.marks (h : Sends peer now e e' es) : e'.sessions.lastHandshakeTs = e.sessions.lastHandshakeTs := by
  induction h with
  | nothing => rfl
  | counted _ _ ih | sealed _ _ _ _ ih | noted _ ih | queued _ _ ih => exact ih

theorem Asks.only (h : Asks codec peer r e e' es) :
    e' = { e with sessions := e'.sessions, lastTs := e'.lastTs } := by
  cases h <;> rfl

theorem Heeds.only (h : Heeds codec peer r msg e e' es) : e' = { e with sessions := e'.sessions } := by
  induction h with
  | held | refused | stale => rfl
  | yieldedNext _ _ _ _ ih | yieldedFirst _ _ _ _ ih => exact ih
  | completed _ _ _ _ hsends | replaced _ _ _ hsends | answered _ _ _ _ _ _ hsends => exact hsends.only

theorem Asks.marks (h : Asks codec peer r e e' es) : e'.sessions.lastHandshakeTs = e.sessions.lastHandshakeTs := by
  cases h <;> rfl

/-! ### Sending -/

theorem Sends.trans (h : Sends peer now e e' es) (h' : Sends peer now e' e'' es') :
    Sends peer now e e'' (es ++ es') := by
  induction h with
  | nothing e => exact h'
  | counted c _ ih => exact .counted c (ih h')
  | sealed hget hseal hx _ ih => exact .sealed hget hseal hx (ih h')
  | noted _ ih => exact .noted (ih h')
  | queued hothers _ ih => exact .queued hothers (ih h')

theorem sends_keepalive (e : Engine) (peer : NodeId) (now : Nat) :
    Sends peer now e (e.keepalive peer).1 (e.keepalive peer).2 := by
  unfold keepalive
  split
  · exact .nothing e
  · rename_i s ctr c h
    obtain ⟨s₀, hget, hseal⟩ := bind_eq_some_iff.mp h
    exact .sealed hget hseal ⟨laneDefault, .inl rfl⟩ (.nothing _)

theorem sends_sealAll (e : Engine) (now : Nat) (packets : List Packet) {t : SessionTable} {s : PairSession}
    (hget : t.get peer = some s) :
    Sends peer now { e with sessions := t } { e with sessions := t.put peer (e.sealAll peer s packets).1 }
      (e.sealAll peer s packets).2 := by
  induction packets generalizing s t with
  | nil =>
    rw [sealAll, put_self hget]
    exact .nothing _
  | cons packet packets ih =>
    rw [sealAll]
    split
    · exact ih hget
    · rename_i s' ctr c hseal
      have hrest := ih (t.get_put peer hget s')
      rw [put_put] at hrest
      exact .sealed (e := { e with sessions := t }) hget hseal ⟨_, .inr rfl⟩ hrest

theorem sends_flushPending (e : Engine) (peer : NodeId) (now : Nat) :
    Sends peer now e (e.flushPending peer now).1 (e.flushPending peer now).2 := by
  unfold flushPending
  split_ifs
  · have hothers : ∀ a, a ≠ peer → (e.sessions.takePending peer).1.pending[a]? = e.sessions.pending[a]? := by
      intro a ha
      simp [takePending, getElem?_erase, Ne.symm ha]
    cases hget : (e.sessions.takePending peer).1.get peer with
    | none =>
      simp only [hget]
      exact .queued hothers (.nothing _)
    | some s =>
      have hsealed := e.sends_sealAll now (e.sessions.takePending peer).2 hget
      simp only [hget]
      split_ifs
      · exact .queued hothers hsealed
      · have hnoted := hsealed.trans (.noted (.nothing _))
        rw [List.append_nil] at hnoted
        exact .queued hothers hnoted
  · exact .nothing e

theorem sends_acknowledge (e : Engine) (peer : NodeId) (now : Nat) :
    Sends peer now e (e.acknowledge peer now).1 (e.acknowledge peer now).2 := by
  unfold acknowledge
  split_ifs
  · exact .noted (sends_keepalive { e with sessions := _ } peer now)
  · exact .nothing e

/-! ### Packets from the device -/

theorem sends_full (full : Bool) (h : Sends peer now e e' es) :
    Sends peer now e e' ((if full then [] else [.count .dropQueueFull]) ++ es) := by
  cases full with
  | true => exact h
  | false => exact .counted _ h

theorem asks_startRekey (packet : Packet) (r : Reading) (hdue : e.sessions.rekeyDue peer r.now) :
    Asks codec peer r e (e.startRekey codec peer r).1 (e.startedEffects peer packet (e.startRekey codec peer r).2) := by
  obtain ⟨p, c, hp, hcurrent, hready, hnext⟩ := entry_of_rekeyDue hdue
  unfold startRekey
  split
  · exact .nothing e
  · rename_i pk hpk
    exact .rekey packet hpk hp hcurrent hready hnext

/-- What comes of a packet for the peer: it is sealed or queued, and then a handshake may begin. -/
def Forwards (codec : EngineCodec) (e : Engine) (peer : NodeId) (r : Reading) (result : Engine × List EngineEffect) :
    Prop :=
  ∃ mid es es', Sends peer r.now e mid es ∧ Asks codec peer r mid result.1 es' ∧ result.2 = es ++ es'

theorem forwards_sendOn {c : PairSession} (hget : e.sessions.get peer = some c) (packet : Packet) (r : Reading) :
    Forwards codec e peer r (e.sendOn codec peer c packet r) := by
  -- What the sealing leaves, whether it succeeds or not.
  have hafter {t : SessionTable} {es : List EngineEffect}
      (hsent : Sends peer r.now e { e with sessions := t.noteSent peer r.now } es) :
      let sent := { e with sessions := t.noteSent peer r.now }
      let rekeyed := if sent.sessions.rekeyDue peer r.now then sent.startRekey codec peer r else (sent, none)
      Forwards codec e peer r (rekeyed.1, es ++ e.startedEffects peer packet rekeyed.2) := by
    intro sent rekeyed
    refine ⟨sent, es, e.startedEffects peer packet rekeyed.2, hsent, ?_, rfl⟩
    by_cases hdue : sent.sessions.rekeyDue peer r.now
    · rw [show rekeyed = sent.startRekey codec peer r from if_pos hdue]
      exact asks_startRekey packet r hdue
    · rw [show rekeyed = (sent, none) from if_neg hdue]
      exact .nothing sent
  unfold sendOn
  cases hseal : c.sealPacket packet with
  | none => exact hafter (.counted _ (.noted (.nothing _)))
  | some sealed => exact hafter (.sealed hget hseal ⟨_, .inr rfl⟩ (.noted (.nothing _)))

theorem forwards_queueFor (packet : Packet) (r : Reading) :
    Forwards codec e peer r (e.queueFor codec peer packet r) := by
  have hqueued : ∀ a, a ≠ peer → (e.sessions.queue peer packet).1.pending[a]? = e.sessions.pending[a]? := by
    intro a ha
    simp [queue, getElem?_insert, Ne.symm ha]
  unfold queueFor
  cases hhas : e.sessions.has peer with
  | true =>
    exact ⟨_, _, [], sends_full (e.sessions.queue peer packet).2 (.queued hqueued (.nothing _)), .nothing _, by simp⟩
  | false =>
    cases hpk : e.peers.pubkeyOf codec.base64 peer with
    | none =>
      have htaken : ∀ a, a ≠ peer → (e.sessions.takePending peer).1.pending[a]? = e.sessions.pending[a]? := by
        intro a ha
        simp [takePending, getElem?_erase, Ne.symm ha]
      exact ⟨_, _, [], .counted _ (.queued htaken (.nothing _)), .nothing _, rfl⟩
    | some pk =>
      refine ⟨_, _, _, sends_full (e.sessions.queue peer packet).2 (.queued hqueued (.nothing _)),
        .first packet hpk hhas, ?_⟩
      rw [List.append_nil]
      rfl

def ownerFor (e : Engine) (packet : Packet) : Option NodeId :=
  if e.mtu < packet.length then none
  else packet.parseInnerAddrs.bind fun addrs =>
    if e.peers.isMineHost addrs.2 then none else e.peers.ownerOf addrs.2

theorem outbound_of_owner (codec : EngineCodec) (r : Reading) {owner : NodeId}
    (h : e.ownerFor packet = some owner) :
    e.outbound codec packet r =
      ((e.sessions.get owner).filter (·.isReady)).elim (e.queueFor codec owner packet r)
        fun s => e.sendOn codec owner s packet r := by
  unfold ownerFor at h
  split_ifs at h with hmtu
  obtain ⟨⟨src, dst⟩, haddrs, hdst⟩ := bind_eq_some_iff.mp h
  split_ifs at hdst with hmine
  unfold outbound
  simp only [if_neg hmtu, haddrs, hmine, hdst, Bool.false_eq_true, if_false]
  cases (e.sessions.get owner).filter (·.isReady) with
  | none | some s => rfl

theorem outbound_of_no_owner (codec : EngineCodec) (r : Reading)
    (h : e.ownerFor packet = none) : (e.outbound codec packet r).1 = e ∧
      ∀ x ∈ (e.outbound codec packet r).2, (∃ c, x = .count c) ∨ x = .tunWrite packet := by
  unfold ownerFor at h
  unfold outbound
  split_ifs at h ⊢ with hmtu
  · exact ⟨rfl, by simp⟩
  · cases haddrs : packet.parseInnerAddrs with
    | none => exact ⟨rfl, by simp⟩
    | some addrs =>
      obtain ⟨src, dst⟩ := addrs
      simp only [haddrs, bind_some] at h
      simp only
      split_ifs at h ⊢ with hmine
      · exact ⟨rfl, by simp⟩
      · simp [h]

variable (codec) in
theorem forwards_outbound {owner : NodeId} (h : e.ownerFor packet = some owner) (r : Reading) :
    Forwards codec e owner r (e.outbound codec packet r) := by
  rw [outbound_of_owner codec r h]
  cases hready : (e.sessions.get owner).filter (·.isReady) with
  | none => exact forwards_queueFor packet r
  | some c => exact forwards_sendOn (filter_eq_some_iff.mp hready).1 packet r

/-! ### Handshake messages -/

theorem finish_cases {s : PairSession} (hflight : s.isReady = false) (msg : Option Message) :
    (((s.finish msg).2 && (s.finish msg).1.isReady) = false ∧ readReply s.first msg = none) ∨
      ((s.finish msg).2 && (s.finish msg).1.isReady) ∧ ∃ t : Transcript, s.stage = .handshake t.first ∧
        readReply t.first msg = some t ∧ (s.finish msg).1 = { s with stage := .transport t 0 } := by
  cases hs : s.stage with
  | transport t n => simp [PairSession.isReady, hs] at hflight
  | handshake first =>
    simp only [PairSession.finish, PairSession.first, hs]
    cases hread : readReply first msg with
    | none => exact .inl ⟨rfl, rfl⟩
    | some t =>
      obtain ⟨-, rfl⟩ := readReply_eq_some.mp hread
      exact .inr ⟨rfl, t, rfl, hread, rfl⟩

theorem readReply_initiation {first m : Initiation} {t : Transcript} (h : readReply first msg = some t) :
    msg ≠ some (.initiation m) := by
  rw [(readReply_eq_some.mp h).1]
  exact fun heq => (nomatch heq)

theorem heeds_answer (hnone : e.awaited peer = none) (msg : Option Message) (carried : List Packet) (r : Reading) :
    Heeds codec peer r msg e (e.answer codec peer msg carried r).1 (e.answer codec peer msg carried r).2 := by
  unfold answer PairSession.respond
  cases hread : readInitiation e.key ⟨e.networkUuid, peer, e.myNodeId⟩ msg with
  | none =>
    refine .refused hnone (.inl rfl) fun m hm hi => ?_
    rw [readInitiation_eq_some.mpr ⟨hm, hi.1, hi.2.1⟩] at hread
    cases hread
  | some m =>
    obtain ⟨rfl, hkey, hpro⟩ := readInitiation_eq_some.mp hread
    simp only [map_some, PairSession.peerStatic, PairSession.first, Bool.false_eq_true, if_false]
    split_ifs with hpub
    · unfold acceptHandshakeTs
      by_cases hstale : (e.sessions.lastHandshakeTs peer m.initiator).any (Tai64n.fromPayload m.payload ≤ ·)
      · rw [if_pos hstale]
        exact .stale hnone rfl ⟨hkey, hpro, hpub⟩ hstale
      · rw [if_neg hstale]
        refine .answered hnone rfl ⟨hkey, hpro, hpub⟩ hstale ?_ ?_ (sends_flushPending { e with sessions := _ } peer r.now)
        · exact (queue_frame peer _ carried).1
        · exact (queue_frame peer _ carried).2
    · refine .refused hnone (.inr rfl) fun m' hm' hi => hpub ?_
      cases hm'
      exact hi.2.2

theorem heeds_onFirstHandshake (hnext : e.sessions.nextInFlight peer = none) (msg : Option Message) (r : Reading) :
    Heeds codec peer r msg e (e.onFirstHandshake codec peer msg r).1 (e.onFirstHandshake codec peer msg r).2 := by
  unfold onFirstHandshake
  cases hfirst : e.sessions.firstInFlight peer with
  | none => exact heeds_answer (awaited_eq_none.mpr ⟨hnext, hfirst⟩) msg [] r
  | some s =>
    have hawaited : e.awaited peer = some s.first := by rw [awaited, hnext, none_or, hfirst, map_some]
    rcases finish_cases (isReady_of_firstInFlight hfirst) msg with ⟨hdone, hread⟩ | ⟨hdone, t, hstage, hread, hfinished⟩
    · simp only [hdone, Bool.false_eq_true, if_false]
      split_ifs with hlower
      · exact .yieldedFirst hlower hawaited hread (heeds_answer (e := { e with sessions := _ })
          (awaited_eq_none.mpr (inFlight_remove e.sessions peer)) msg _ r)
      · exact .held (Nat.not_lt.mp hlower) hawaited hread
    · dsimp only
      rw [if_pos hdone, hfinished]
      exact .completed hnext hfirst hstage hread (sends_flushPending { e with sessions := _ } peer r.now)

theorem heeds_onHandshake (codec : EngineCodec) (e : Engine) (peer : NodeId) (msg : Option Message) (r : Reading) :
    Heeds codec peer r msg e (e.onHandshake codec peer msg r).1 (e.onHandshake codec peer msg r).2 := by
  unfold onHandshake
  cases hnext : e.sessions.nextInFlight peer with
  | none => exact heeds_onFirstHandshake hnext msg r
  | some n =>
    have hawaited : e.awaited peer = some n.first := by rw [awaited, hnext, some_or, map_some]
    rcases finish_cases (isReady_of_nextInFlight hnext) msg with ⟨hdone, hread⟩ | ⟨hdone, t, hstage, hread, hfinished⟩
    · simp only [hdone, Bool.false_eq_true, if_false]
      split_ifs with hlower
      · exact .yieldedNext hlower hawaited hread (heeds_onFirstHandshake (e := { e with sessions := _ })
          (e.sessions.nextInFlight_dropNext peer) msg r)
      · exact .held (Nat.not_lt.mp hlower) hawaited hread
    · dsimp only
      rw [if_pos hdone, hfinished]
      have halive := (sends_keepalive { e with
        sessions := (e.sessions.putNext peer { n with stage := .transport t 0 }).promote peer r.now } peer r.now).trans
          (.noted (sends_flushPending { (keepalive _ peer).1 with sessions := _ } peer r.now))
      exact .replaced hnext hstage hread halive List.perm_append_comm

/-! ### Data frames -/

/-- What comes of a data frame: nothing, or it is opened, and a keepalive may answer it. Its packet is written to
the device only if it passed the filter. -/
def Reads (e : Engine) (peer : NodeId) (ctr : Nat) (msg : Option Message) (now : Nat)
    (result : Engine × List EngineEffect) : Prop :=
  (result.1 = e ∧ ∃ c, result.2 = [.count c]) ∨
    ∃ t inner es es', e.sessions.unsealFrame peer ctr msg now = .ok (t, inner) ∧
      Sends peer now { e with sessions := t } result.1 es ∧ result.2 = es ++ es' ∧
      (es' = [] ∨ es' = [.count .dropIngress] ∨
        es' = [.count .received, .tunWrite inner] ∧ e.peers.checkIngress peer inner = .accept)

theorem reads_onData (e : Engine) (peer : NodeId) (ctr : Nat) (msg : Option Message) (now : Nat) :
    e.Reads peer ctr msg now (e.onData peer ctr msg now) := by
  unfold onData
  cases hopen : e.sessions.unsealFrame peer ctr msg now with
  | error err => cases err <;> exact .inl ⟨rfl, _, rfl⟩
  | ok opened =>
    obtain ⟨t, inner⟩ := opened
    have hacked := sends_acknowledge { e with sessions := t } peer now
    dsimp only
    split_ifs
    · exact .inr ⟨t, inner, [], [], hopen, .nothing _, rfl, .inl rfl⟩
    · split
      · rename_i haccept
        exact .inr ⟨t, inner, _, _, hopen, hacked, rfl, .inr (.inr ⟨rfl, haccept⟩)⟩
      · exact .inr ⟨t, inner, _, _, hopen, hacked, rfl, .inr (.inl rfl)⟩

section Reads

variable {ctr : Nat} {result : Engine × List EngineEffect} (h : e.Reads peer ctr msg now result)

include h

theorem Reads.only : result.1 = { e with sessions := result.1.sessions } := by
  rcases h with ⟨hsame, -⟩ | ⟨t, inner, es, es', -, hsends, -⟩
  · rw [hsame]
  · exact hsends.only

theorem Reads.marks : result.1.sessions.lastHandshakeTs = e.sessions.lastHandshakeTs := by
  rcases h with ⟨hsame, -⟩ | ⟨t, inner, es, es', hopen, hsends, -⟩
  · rw [hsame]
  · obtain ⟨p, p', -, -, rfl⟩ := unsealFrame_entry hopen
    exact hsends.marks

end Reads

/-- What comes of a datagram: a handshake message or a data frame of a peer, or nothing. -/
inductive Receives (codec : EngineCodec) (e : Engine) (datagram : Datagram) (r : Reading) :
    Engine × List EngineEffect → Prop
  | nothing {result : Engine × List EngineEffect} (notes : List TraceNote) :
      result.1 = { e with traceNotes := notes } → (∀ x ∈ result.2, x = .count .traceNotes ∨ x = .count .dropMalformed) →
      Receives codec e datagram r result
  | handshake {result : Engine × List EngineEffect} {h : RoutedHeader} :
      RoutedHeader.parse datagram = some h → h.dstId = e.myNodeId → h.kind = tHandshake →
      Heeds codec h.srcId r (messageIn codec datagram) e result.1 result.2 → Receives codec e datagram r result
  | data {result : Engine × List EngineEffect} {h : RoutedHeader} :
      RoutedHeader.parse datagram = some h → h.dstId = e.myNodeId → h.kind ≠ tHandshake →
      e.Reads h.srcId (BigEndian.ofBytes ((datagram.drop routedHeaderLen).take 8)) (messageIn codec datagram) r.now
        result → Receives codec e datagram r result

theorem receives_inbound (codec : EngineCodec) (e : Engine) (datagram : Datagram) (r : Reading) :
    Receives codec e datagram r (e.inbound codec datagram r) := by
  unfold inbound
  split_ifs
  · split
    · exact .nothing e.traceNotes rfl (by simp)
    · exact .nothing _ rfl (by simp)
  · cases hparse : RoutedHeader.parse datagram with
    | none => exact .nothing e.traceNotes rfl (by simp)
    | some h =>
      have hmessage : messageIn codec datagram = codec.message.read (if h.kind = tHandshake
          then datagram.drop routedHeaderLen else (datagram.drop routedHeaderLen).drop 8) := by
        simp [messageIn, hparse]
      dsimp only
      split_ifs with hdst hkind hshort
      · exact .nothing e.traceNotes rfl (by simp)
      · rw [if_pos hkind] at hmessage
        refine .handshake hparse (Decidable.not_not.mp hdst) hkind ?_
        rw [hmessage]
        exact heeds_onHandshake codec e h.srcId _ r
      · exact .nothing e.traceNotes rfl (by simp)
      · rw [if_neg hkind] at hmessage
        refine .data hparse (Decidable.not_not.mp hdst) hkind ?_
        rw [hmessage]
        exact reads_onData e h.srcId _ _ r.now

end Engine

end Nqvpn
