import Nqvpn.EngineParty

/-!
# What arrives, and what the party takes

Whatever letter the party can take, the engine takes the frame that spells it and
ends up as the party does, except that it may answer data with a keepalive. The
packets it writes to its device are those the letter carries, after its ingress
filter.
-/

namespace Nqvpn

open Handover SessionTable Party NoiseIK List

namespace Engine

variable {codec : EngineCodec} {e : Engine} {ρ : Direction} {r : Reading} {p p' : EngineParty}
  {l : Line Transcript} {now n : Nat} {s : PairSession} {t : Transcript} {b : Bool} {packet : Packet}
  {carried : List Packet} {i : Initiation} {q : EngineParty × List EngineLetter}

/-! ### Sending what waited -/

theorem sealAll_utters (hρ : ρ.Valid) (hs : e.Serves codec ρ) (hb : s.Bears ρ.src ρ.dst l)
    (packets : List Packet) (hq : ∀ x ∈ packets, Queueable x)
    (hn : packets = [] ∨ l.sent + packets.length ≤ 2 ^ 64 - 1) :
    (e.sealAll ρ.dst s packets).1.Bears ρ.src ρ.dst { l with sent := l.sent + packets.length } ∧
      Utters ρ (e.sealAll ρ.dst s packets).2 (numbered l.session l.sent packets) := by
  induction packets generalizing s l with
  | nil => exact ⟨hb, utters_nil⟩
  | cons x xs ih =>
    obtain ⟨hpos, hlen⟩ := hq x mem_cons_self
    have hn : l.sent + (xs.length + 1) ≤ 2 ^ 64 - 1 := by simpa using hn
    have hseal : PairSession.CanSeal l x := ⟨by omega, hlen⟩
    obtain ⟨s', hs', hb'⟩ := hb.sealPacket hseal
    obtain ⟨hbears, hutters⟩ := ih hb' (fun y hy => hq y (mem_cons_of_mem x hy))
      (.inr (by simp; omega))
    have hdata := (utters_data (e := e) hρ hs hb.side (by omega : l.sent < 2 ^ 64) hlen
      (x.laneFor e.lanes)).1
    rw [payload_of_pos hpos] at hdata
    simp only [sealAll, hs', numbered]
    refine ⟨?_, hdata.append hutters⟩
    rw [length_cons, Nat.add_comm xs.length 1, ← Nat.add_assoc]
    exact hbears

def flushed (p : EngineParty) (l : Line Transcript) : EngineParty × List EngineLetter :=
  ({ p with current := some (.ready { l with sent := l.sent + p.queue.length }), queue := [] },
    numbered l.session l.sent p.queue)

theorem flushed_of_empty (hl : p.current = some (.ready l)) (hq : p.queue = []) : flushed p l = (p, []) := by
  obtain ⟨current, next, previous, queue, accepted, opened⟩ := p
  cases hl
  cases hq
  rfl

theorem flushed_settle (p : EngineParty) (t : Transcript) :
    flushed { p with current := some (.ready ⟨t, 0, 0⟩), previous := none } ⟨t, 0, 0⟩ = p.settle t := by
  simp [flushed, settle]

variable {es : List EngineEffect} {peer : NodeId} {e' : Engine}

theorem Serves.sends (hs : e.Serves codec ρ) (h : Sends peer now e e' es) : e'.Serves codec ρ := by
  rw [h.only]
  exact hs.withSessions _ e.lastTs

section Sending

variable (he : e.Enacts codec ρ now p) (hl : p.current = some (.ready l))

include he hl

theorem flushPending_conducts (hn : p.queue = [] ∨ l.sent + p.queue.length ≤ 2 ^ 64 - 1) :
    Conducts ρ now (e.flushPending ρ.dst now) (flushed p l) := by
  have hp := he.plays
  obtain ⟨s, hc, hb⟩ := hp.ready hl
  have hready : e.sessions.isReady ρ.dst := by
    simp [isReady_eq_seat, hc, hb.isReady]
  have hseat : (e.sessions.takePending ρ.dst).1.seat ρ.dst =
      { e.sessions.seat ρ.dst with queue := [] } := e.sessions.seat_takePending ρ.dst
  have hc' : ((e.sessions.takePending ρ.dst).1.seat ρ.dst).current = some s := by
    exact hc
  have hget : (e.sessions.takePending ρ.dst).1.get ρ.dst = some s :=
    (get_eq_seat ..).trans hc'
  have htaken : (e.sessions.takePending ρ.dst).2 = p.queue := hp.queue
  obtain ⟨hbears, hutters⟩ := sealAll_utters he.valid he.serves hb p.queue (hp.queue ▸ hp.queueable) hn
  have hplays : (((e.sessions.takePending ρ.dst).1.put ρ.dst (e.sealAll ρ.dst s p.queue).1).seat
      ρ.dst).Plays ρ.src ρ.dst now (flushed p l).1 := by
    rw [seat_put _ _ hc', hseat]
    exact ⟨.ready hbears, hp.next, hp.previous, rfl, by simp, Nat.zero_le _⟩
  unfold flushPending
  rw [if_pos hready]
  simp only [hget, htaken]
  refine ⟨?_, hutters⟩
  split_ifs
  · exact hplays
  · rw [seat_noteSent]
    exact hplays

theorem keepalive_conducts : Conducts ρ now (e.keepalive ρ.dst)
    (if l.sent < 2 ^ 64 - 1 then
      ({ p with current := some (.ready { l with sent := l.sent + 1 }) },
        [.data l.session l.sent none])
    else (p, [])) := by
  have hp := he.plays
  obtain ⟨s, hc, hb⟩ := hp.ready hl
  have hget : e.sessions.get ρ.dst = some s := (e.sessions.get_eq_seat ρ.dst).trans hc
  have hempty : tagLen ≤ maxMessage := by decide
  unfold keepalive
  rw [hget, Option.bind_some]
  split_ifs with hn
  · obtain ⟨s', hs', hb'⟩ := hb.sealPacket (⟨hn, by simpa using hempty⟩ :
      PairSession.CanSeal l [])
    rw [hs']
    have hdata := (utters_data he.valid he.serves hb.side (by omega : l.sent < 2 ^ 64)
      (by simpa using hempty : ([] : Packet).length + _ ≤ _) laneDefault).2
    refine ⟨?_, hdata⟩
    rw [seat_put _ _ hc]
    exact { hp with current := .ready hb' }
  · rw [hb.sealPacket_eq_none fun h => hn h.1]
    exact ⟨hp, utters_nil⟩

theorem acknowledge_conducts : ∃ q, p.Does q ∧ q.1.accepted = p.accepted ∧ stamps q.2 = [] ∧
    Conducts ρ now (e.acknowledge ρ.dst now) q := by
  unfold acknowledge
  split_ifs with hdue
  · have hcond := keepalive_conducts he.noteSent hl
    split_ifs at hcond
    · have hsend := send_of_ready hl none
      rw [Option.toList_none, append_nil] at hsend
      exact ⟨_, .send .idle hsend, rfl, rfl, hcond.plays, hcond.utters⟩
    · exact ⟨_, .idle, rfl, rfl, hcond.plays, hcond.utters⟩
  · exact ⟨(p, []), .idle, rfl, rfl, he.plays, utters_nil⟩

end Sending

/-! ### Data -/

theorem unsealFrame_plays (hne : ρ.src ≠ ρ.dst) (hp : (e.sessions.seat ρ.dst).Plays ρ.src ρ.dst now p)
    (htake : p.takeData t n (payload packet) = some p') (hside : Side ρ.dst ρ.src t b)
    (hlen : packet.length + tagLen ≤ maxMessage) :
    ∃ t', e.sessions.unsealFrame ρ.dst n (some (.sealed ⟨t, b, n, packet⟩)) now =
        .ok (t', packet) ∧ (t'.seat ρ.dst).Plays ρ.src ρ.dst now p' := by
  obtain ⟨l, hl, hcases⟩ := takeData_eq_some htake
  obtain ⟨s, hc, hb⟩ := hp.ready hl
  have hsessions := e.sessions.sessions_of_current ρ.dst hc
  have hcurrent : (e.sessions.entry ρ.dst).current = some s := hc
  have hnext : Stands ρ.src ρ.dst (e.sessions.entry ρ.dst).next p.next := hp.next
  have hfilter : (e.sessions.entry ρ.dst).current.filter (·.isReady) = some s := by
    simp [hcurrent, Option.filter, hb.isReady]
  -- It is enough to say what the slots of the peer become.
  have hopen {q : PeerSessions} (h : (e.sessions.entry ρ.dst).unsealAny n
        (some (.sealed ⟨t, b, n, packet⟩)) now = .ok (q, packet))
      (hq : Seat.Plays ⟨q.current, q.next, q.previous, (e.sessions.seat ρ.dst).queue⟩ ρ.src ρ.dst
        now p') :
      ∃ t', e.sessions.unsealFrame ρ.dst n (some (.sealed ⟨t, b, n, packet⟩)) now =
          .ok (t', packet) ∧ (t'.seat ρ.dst).Plays ρ.src ρ.dst now p' := by
    refine ⟨e.sessions.setEntry ρ.dst { q with awaitingSince := none }, ?_, ?_⟩
    · simp only [unsealFrame, hsessions, h]
    · rw [seat_setEntry]
      exact hq
  rcases hcases with ⟨rfl, hn, rfl⟩ | ⟨ht, m, hm, rfl, hn, rfl⟩ | ⟨ht, hm, k, hk, rfl, hn, rfl⟩
  · obtain ⟨s', hs', hb'⟩ := hb.unsealFrame hne hn hside hlen
    refine hopen (q := { e.sessions.entry ρ.dst with current := some s' }) ?_ ?_
    · simp only [PeerSessions.unsealAny, hfilter, Option.map_some, hs']
    · exact { hp with current := .ready hb' }
  · rw [hm] at hnext
    obtain ⟨s₁, hn₁, hb₁⟩ := hnext.of_ready
    have hfilter' : (e.sessions.entry ρ.dst).next.filter (·.isReady) = some s₁ := by
      simp [hn₁, Option.filter, hb₁.isReady]
    obtain ⟨err, herr⟩ := hb.unsealFrame_ne (n := n) (c := ⟨m.session, b, n, packet⟩) ht
    obtain ⟨s', hs', hb'⟩ := hb₁.unsealFrame hne hn hside hlen
    refine hopen (q := { e.sessions.entry ρ.dst with next := some s' }.promote now) ?_ ?_
    · simp only [PeerSessions.unsealAny, hfilter, hfilter', Option.map_some, herr, hs']
    · simp only [PeerSessions.promote, hfilter, Option.map_some, Option.some_or]
      refine { hp with current := .ready hb', next := .empty, previous := ?_ }
      rintro k ⟨⟩
      exact ⟨(s, now), rfl, by simp [previousGraceSecs], hb⟩
  · obtain ⟨⟨s₀, retired⟩, hprevious, hgrace, hb₀⟩ := hp.previous k hk
    have hprevious' : (e.sessions.entry ρ.dst).previous = some (s₀, retired) := hprevious
    obtain ⟨err, herr⟩ := hb.unsealFrame_ne (n := n) (c := ⟨k.session, b, n, packet⟩) ht
    obtain ⟨s', hs', hb'⟩ := hb₀.unsealFrame hne hn hside hlen
    refine hopen (q := { e.sessions.entry ρ.dst with previous := some (s', retired) }) ?_ ?_
    · have hkept : (e.sessions.entry ρ.dst).previous.filter
          (fun q => decide (now - q.2 < previousGraceSecs)) = some (s₀, retired) := by
        rw [hprevious', Option.filter_some]
        exact if_pos (decide_eq_true hgrace)
      simp only [PeerSessions.unsealAny, hfilter, hnext.unready hm, hkept, Option.map_some,
        Option.map_none, herr, hs', Except.map]
    · refine { hp with previous := ?_ }
      rintro k' ⟨⟩
      exact ⟨(s', retired), rfl, hgrace, hb'⟩

theorem onData_conducts (he : e.Enacts codec ρ now p) (htake : p.takeData t n (payload packet) = some p')
    (hside : Side ρ.dst ρ.src t b) (hlen : packet.length + tagLen ≤ maxMessage) :
    writtenPackets (e.onData ρ.dst n (some (.sealed ⟨t, b, n, packet⟩)) now).2 =
        (payload packet).toList.filter (e.peers.checkIngress ρ.dst · = .accept) ∧
      ∃ q, p'.Does q ∧ q.1.accepted = p'.accepted ∧ stamps q.2 = [] ∧
        Conducts ρ now (e.onData ρ.dst n (some (.sealed ⟨t, b, n, packet⟩)) now) q := by
  obtain ⟨t', hopen, hp'⟩ := unsealFrame_plays he.valid.ne he.plays htake hside hlen
  obtain ⟨l, hl⟩ : ∃ l, p'.current = some (.ready l) := by
    obtain ⟨l, hl, ⟨-, -, rfl⟩ | ⟨-, m, -, -, -, rfl⟩ | ⟨-, -, k, -, -, -, rfl⟩⟩ :=
      takeData_eq_some htake
    · exact ⟨_, rfl⟩
    · exact ⟨_, rfl⟩
    · exact ⟨l, hl⟩
  simp only [onData, hopen]
  cases hempty : packet.isEmpty with
  | true =>
    rw [if_pos rfl, payload, hempty, if_pos rfl]
    exact ⟨rfl, (p', []), .idle, rfl, rfl, hp', utters_nil⟩
  | false =>
    obtain ⟨q, hdoes, hacc, hstamps, hcond⟩ := acknowledge_conducts (he.become hp') hl
    have hnothing : writtenPackets (acknowledge { e with sessions := t' } ρ.dst now).2 = [] :=
      (sends_acknowledge _ ρ.dst now).written
    have hutters {es : List EngineEffect} (hes : Utters ρ es []) :
        Utters ρ ((acknowledge { e with sessions := t' } ρ.dst now).2 ++ es) q.2 := by
      simpa using hcond.utters.append hes
    rw [if_neg Bool.false_ne_true, payload, hempty, if_neg Bool.false_ne_true, Option.toList_some,
      filter_singleton]
    cases hverdict : e.peers.checkIngress ρ.dst packet with
    | accept | drop reason =>
      refine ⟨?_, q, hdoes, hacc, hstamps, hcond.plays, hutters utters_nil⟩
      rw [writtenPackets_append, hnothing]
      rfl

/-! ### Answering -/

def AsksUs (ρ : Direction) (i : Initiation) : Prop :=
  i.initiator = ρ.dstKey ∧ i.responder = ρ.srcKey ∧ i.prologue = ⟨ρ.uuid, ρ.dst, ρ.src⟩

theorem answering_bears (hi : AsksUs ρ i) (r : Reading) :
    (answering ρ.dst i r).Bears ρ.src ρ.dst ⟨⟨i, r.ephemeral⟩, 0, 0⟩ := by
  refine ⟨rfl, ReplayWindow.open_default 0, ?_⟩
  change i.prologue.initiator = ρ.dst
  rw [hi.2.2]

theorem install_beside (he : e.Enacts codec ρ now p) (hl : p.current = some (.ready l)) (hq : p.queue = []) (hb : s.Bears ρ.src ρ.dst ⟨t, 0, 0⟩) :
    Conducts ρ now (e.install ρ.dst s [] now) ({ p with next := some (.ready ⟨t, 0, 0⟩) }, []) := by
  have hp := he.plays
  obtain ⟨s₀, hc, hb₀⟩ := hp.ready hl
  have hp' : ((e.sessions.installResponder ρ.dst s).seat ρ.dst).Plays ρ.src ρ.dst now
      { p with next := some (.ready ⟨t, 0, 0⟩) } := by
    rw [seat_installResponder, hc, Option.any_some, if_pos hb₀.isReady]
    exact ⟨hc ▸ hp.current, .ready hb, hp.previous, hp.queue, hp.queueable, hp.room⟩
  have hcond := flushPending_conducts (he.become hp') hl (.inl hq)
  rw [flushed_of_empty (by exact hl) (by exact hq)] at hcond
  exact hcond

theorem install_first (he : e.Enacts codec ρ now p) (hl : ∀ l, p.current ≠ some (.ready l)) (hb : s.Bears ρ.src ρ.dst ⟨t, 0, 0⟩)
    (hcarried : ∀ x ∈ carried, Queueable x) (hroom : p.queue.length + carried.length ≤ pendingLimit) :
    Conducts ρ now (e.install ρ.dst s carried now)
      (settle { p with queue := p.queue ++ carried } t) := by
  have hp := he.plays
  have hunready : (e.sessions.seat ρ.dst).current.any (·.isReady) = false := by
    simpa [Option.filter_eq_none_iff, Option.any_eq_false] using hp.current.unready hl
  have hseat : (e.sessions.installResponder ρ.dst s).seat ρ.dst =
      { e.sessions.seat ρ.dst with current := some s } := by
    rw [seat_installResponder, hunready, if_neg Bool.false_ne_true]
  have hqueued := (e.sessions.installResponder ρ.dst s).seat_requeue ρ.dst carried (by
    exact hp.queue ▸ hroom)
  have hp' : (((e.sessions.installResponder ρ.dst s).requeue ρ.dst carried).seat ρ.dst).Plays ρ.src
      ρ.dst now { p with
        current := some (.ready ⟨t, 0, 0⟩)
        previous := none
        queue := p.queue ++ carried } := by
    rw [hqueued, hseat]
    refine ⟨.ready hb, hp.next, ?_, congrArg (· ++ carried) hp.queue, ?_, ?_⟩
    · rintro k ⟨⟩
    · intro x hx
      rcases mem_append.mp hx with hx | hx
      · exact hp.queueable x hx
      · exact hcarried x hx
    · rw [length_append]
      exact hp.queue ▸ hroom
  have hcount : 0 + (p.queue ++ carried).length ≤ 2 ^ 64 - 1 := by
    rw [length_append]
    have hlimit : pendingLimit = 64 := rfl
    omega
  rw [← flushed_settle]
  exact flushPending_conducts (he.become hp') rfl (.inr hcount)

section Answering

variable (he : e.Enacts codec ρ r.now p) (hi : AsksUs ρ i)
  (hnew : (e.sessions.lastHandshakeTs ρ.dst ρ.dstKey).any (Tai64n.fromPayload i.payload ≤ ·) = false)

include he hi hnew

/-- An answer is the reply, and then what installing the session sends. -/
theorem answer_conducts (hinstall : ∀ accepted : SessionTable,
      accepted.seat ρ.dst = e.sessions.seat ρ.dst →
      Conducts ρ r.now (install { e with sessions := accepted } ρ.dst (answering ρ.dst i r) carried r.now) q) :
    Conducts ρ r.now (e.answer codec ρ.dst (some (.initiation i)) carried r)
      (q.1, .answer ⟨i, r.ephemeral⟩ :: q.2) := by
  have hread : readInitiation e.key ⟨e.networkUuid, ρ.dst, e.myNodeId⟩
      (some (.initiation i)) = some i :=
    readInitiation_eq_some.mpr ⟨rfl, hi.2.1.trans he.serves.key.symm, by
      rw [hi.2.2, he.serves.uuid, he.serves.id]⟩
  have hrespond : PairSession.respond e.key ρ.dst e.networkUuid e.myNodeId (some (.initiation i))
      r.now r.ephemeral = some (answering ρ.dst i r, ⟨i, r.ephemeral⟩, Tai64n.fromPayload i.payload) := by
    rw [PairSession.respond, hread]
    rfl
  have hstatic : (answering ρ.dst i r).peerStatic = ρ.dstKey := hi.1
  have haccept : e.sessions.acceptHandshakeTs ρ.dst ρ.dstKey (Tai64n.fromPayload i.payload) =
      some _ := if_neg (Bool.eq_false_iff.mp hnew)
  have hcond := hinstall _ (e.sessions.seat_acceptHandshakeTs ρ.dst haccept)
  unfold answer
  rw [hrespond]
  simp only [hstatic, he.serves.knows, if_true, haccept]
  refine ⟨hcond.plays, ?_⟩
  unfold Utters
  rw [sentTo_count, sentTo_send (e.dstId_frame ..)]
  exact .cons (spells_frame he.valid he.serves (Written.answer ⟨i, r.ephemeral⟩) []) hcond.utters

theorem answer_beside (hl : p.current = some (.ready l)) (hq : p.queue = []) :
    Conducts ρ r.now (e.answer codec ρ.dst (some (.initiation i)) [] r)
      ({ p with next := some (.ready ⟨⟨i, r.ephemeral⟩, 0, 0⟩) }, [.answer ⟨i, r.ephemeral⟩]) :=
  answer_conducts he hi hnew fun _ hseat =>
    install_beside (he.become (hseat.symm ▸ he.plays)) hl hq (answering_bears hi r)

variable (carried) in
theorem answer_first (hl : ∀ l, p.current ≠ some (.ready l)) (hcarried : ∀ x ∈ carried, Queueable x)
    (hroom : p.queue.length + carried.length ≤ pendingLimit) :
    Conducts ρ r.now (e.answer codec ρ.dst (some (.initiation i)) carried r)
      ((settle { p with queue := p.queue ++ carried } ⟨i, r.ephemeral⟩).1,
        .answer ⟨i, r.ephemeral⟩ ::
          (settle { p with queue := p.queue ++ carried } ⟨i, r.ephemeral⟩).2) :=
  answer_conducts he hi hnew fun _ hseat =>
    install_first (he.become (hseat.symm ▸ he.plays)) hl (answering_bears hi r) hcarried hroom

end Answering

/-! ### Handshakes -/

theorem firstInFlight_eq (t : SessionTable) (peer : NodeId) : t.firstInFlight peer =
    (t.seat peer).current.filter fun s => s.initiator && !s.isReady := by
  rw [firstInFlight_eq_seat]
  simp only [Bool.and_comm]

theorem finish_initiation {f : Initiation} (h : s.stage = .handshake f) (i : Initiation) :
    s.finish (some (.initiation i)) = (s, false) := by
  simp [PairSession.finish, h, readReply]

theorem finish_reply (h : s.stage = .handshake t.first) :
    s.finish (some (.reply t)) = ({ s with stage := .transport t 0 }, true) := by
  simp [PairSession.finish, h, readReply]

theorem finished_bears {me : NodeId} (hinit : s.initiator) (hside : t.first.prologue.initiator = me)
    (hreplay : s.replay = .default) : PairSession.Bears me peer { s with stage := .transport t 0 } ⟨t, 0, 0⟩ := by
  refine ⟨rfl, ?_, ?_⟩
  · rw [hreplay]
    exact ReplayWindow.open_default 0
  · change t.first.prologue.initiator = if s.initiator then me else peer
    rw [hinit, if_pos rfl]
    exact hside

theorem onHandshake_ask (he : e.Enacts codec ρ r.now p) (hi : AsksUs ρ i)
    (hnew : (e.sessions.lastHandshakeTs ρ.dst ρ.dstKey).any (Tai64n.fromPayload i.payload ≤ ·) = false)
    (htake : p.takeAsk Transcript.first (decide (ρ.src < ρ.dst)) i ⟨i, r.ephemeral⟩ = some q) :
    Conducts ρ r.now (e.onHandshake codec ρ.dst (some (.initiation i)) r) q := by
  have hp := he.plays
  have hs := he.serves
  have hignored : Conducts ρ r.now (e, []) (p, []) := ⟨hp, utters_nil⟩
  unfold onHandshake
  rw [nextInFlight_eq_seat]
  rcases hp.next.asking with ⟨hnext, hnasked⟩ | ⟨s, f, hn, hslot, hstage, -, -, -, hnext⟩
  · simp only [hnext]
    unfold onFirstHandshake
    rw [firstInFlight_eq]
    rcases hp.current.asking with ⟨hflight, hcasked⟩ |
      ⟨s, f, hc, hslot, hstage, -, -, -, hflight⟩
    · simp only [hflight]
      cases hcurrent : p.current with
      | none =>
        cases hn : p.next with
        | some slot => simp [takeAsk, hcurrent, hn] at htake
        | none =>
          simp only [takeAsk, hcurrent, hn, if_true, reply, Option.some.injEq] at htake
          subst htake
          have hcond := answer_first [] he hi hnew (by simp [hcurrent]) (by simp)
            (by simpa using hp.queue ▸ hp.room)
          rwa [append_nil] at hcond
      | some slot =>
        cases slot with
        | asked f => exact absurd hcurrent (hcasked f)
        | ready l =>
          cases hn : p.next with
          | some slot =>
            cases slot with
            | asked f => exact absurd hn (hnasked f)
            | ready m => simp [takeAsk, hcurrent, hn] at htake
          | none =>
            simp only [takeAsk, hcurrent, hn, if_true, reply] at htake
            split_ifs at htake with hready
            cases htake
            have hbeside := answer_beside he hi hnew hcurrent (isEmpty_iff.mp hready.2)
            rw [hcurrent] at hbeside
            exact hbeside
    · simp only [hflight, finish_initiation hstage, Bool.false_and, Bool.false_eq_true, if_false]
      cases hn : p.next with
      | some slot =>
        simp [takeAsk, hslot, hn] at htake
      | none =>
        by_cases hy : ρ.src < ρ.dst
        · simp only [takeAsk, hslot, hn, hy, decide_true, if_true, reply,
            Option.some.injEq] at htake
          subst htake
          rw [if_pos (hs.id.symm ▸ hy)]
          -- What waited is carried over to a seat without sessions.
          have hp' : (((e.sessions.takePending ρ.dst).1.remove ρ.dst).seat ρ.dst).Plays ρ.src
              ρ.dst r.now { p with current := none, next := none, previous := none, queue := [] } := by
            rw [seat_remove]
            refine ⟨.empty, .empty, ?_, rfl, by simp, Nat.zero_le _⟩
            rintro k ⟨⟩
          have hcond := answer_first p.queue (he.become hp') hi hnew (by simp) (hp.queue ▸ hp.queueable)
            (by simpa using hp.queue ▸ hp.room)
          rw [takePending_eq_queue, hp.queue]
          refine ⟨?_, hcond.utters⟩
          simpa [settle, hn] using hcond.plays
        · simp only [takeAsk, hslot, hn, hy, decide_false, if_true, Bool.false_eq_true,
            if_false, Option.some.injEq] at htake
          subst htake
          rw [if_neg (hs.id.symm ▸ hy)]
          exact hignored
  · simp only [hnext, finish_initiation hstage, Bool.false_and, Bool.false_eq_true, if_false]
    cases hcurrent : p.current with
    | none => simp [takeAsk, hcurrent, hslot] at htake
    | some slot =>
      cases slot with
      | asked g => simp [takeAsk, hcurrent, hslot] at htake
      | ready l =>
        by_cases hy : ρ.src < ρ.dst
        · simp only [takeAsk, hcurrent, hslot, hy, decide_true, if_true, reply] at htake
          split_ifs at htake with hready
          cases htake
          rw [if_pos (hs.id.symm ▸ hy)]
          obtain ⟨s₀, hc, hb⟩ := hp.ready hcurrent
          have hdrop := e.sessions.seat_dropNext ρ.dst hc
          have hp' : ((e.sessions.dropNext ρ.dst).seat ρ.dst).Plays ρ.src ρ.dst r.now
              { p with next := none } := by
            rw [hdrop]
            exact { hp with next := .empty }
          have hidle : (e.sessions.dropNext ρ.dst).firstInFlight ρ.dst = none := by
            rw [firstInFlight_eq, hdrop]
            simp [hc, Option.filter, hb.isReady]
          unfold onFirstHandshake
          simp only [hidle]
          have hcond := answer_beside (he.become hp') hi hnew hcurrent (isEmpty_iff.mp hready.2)
          simp only [hcurrent] at hcond
          exact ⟨hcond.plays, hcond.utters⟩
        · simp only [takeAsk, hcurrent, hslot, hy, decide_false, if_true, Bool.false_eq_true,
            if_false, Option.some.injEq] at htake
          subst htake
          rw [if_neg (hs.id.symm ▸ hy)]
          exact hignored

theorem onHandshake_answer_first (he : e.Enacts codec ρ r.now p)
    (hcurrent : p.current = some (.asked t.first)) (hn : p.next = none) :
    Conducts ρ r.now (e.onHandshake codec ρ.dst (some (.reply t)) r) (p.settle t) := by
  have hp := he.plays
  have hslot := hp.current
  have hidle := hp.next
  rw [hcurrent] at hslot
  rw [hn] at hidle
  obtain ⟨s, hc, hstage, hinit, hside, hreplay⟩ := hslot.of_asked
  have hnext : e.sessions.nextInFlight ρ.dst = none := by
    rw [nextInFlight_eq_seat, hidle.of_none]
    rfl
  have hflight : e.sessions.firstInFlight ρ.dst = some s := by
    rw [firstInFlight_eq_seat, hc]
    simp [Option.filter, PairSession.isReady, hstage, hinit]
  have hbears : PairSession.Bears ρ.src ρ.dst { s with stage := .transport t 0 } ⟨t, 0, 0⟩ :=
    finished_bears hinit hside hreplay
  have hp' : ((e.sessions.put ρ.dst { s with stage := .transport t 0 }).seat ρ.dst).Plays ρ.src
      ρ.dst r.now { p with current := some (.ready ⟨t, 0, 0⟩), previous := none } := by
    rw [seat_put _ _ hc]
    refine { hp with current := .ready hbears, previous := ?_ }
    rintro k ⟨⟩
  have hcount : 0 + p.queue.length ≤ 2 ^ 64 - 1 := by
    have hroom : p.queue.length ≤ pendingLimit := hp.queue ▸ hp.room
    have hlimit : pendingLimit = 64 := rfl
    omega
  have hcond := flushPending_conducts (he.become hp') rfl (.inr hcount)
  rw [flushed_settle] at hcond
  have hready := hbears.isReady
  unfold onHandshake onFirstHandshake
  simp only [hnext, hflight, finish_reply hstage, hready, Bool.and_self, if_true]
  exact ⟨hcond.plays, hcond.utters⟩

theorem onHandshake_answer_next (he : e.Enacts codec ρ r.now p) (hcurrent : p.current = some (.ready l))
    (hn : p.next = some (.asked t.first)) (hq : p.queue = []) :
    Conducts ρ r.now (e.onHandshake codec ρ.dst (some (.reply t)) r)
      ({ p with current := some (.ready ⟨t, 1, 0⟩), next := none, previous := some l },
        [.data t 0 none]) := by
  have hp := he.plays
  obtain ⟨s₀, hc, hb₀⟩ := hp.ready hcurrent
  have hasked := hp.next
  rw [hn] at hasked
  obtain ⟨s, hslot, hstage, hinit, hside, hreplay⟩ := hasked.of_asked
  have hflight : e.sessions.nextInFlight ρ.dst = some s := by
    rw [nextInFlight_eq_seat, hslot]
    simp [Option.filter, PairSession.isReady, hstage, hinit]
  have hbears : PairSession.Bears ρ.src ρ.dst { s with stage := .transport t 0 } ⟨t, 0, 0⟩ :=
    finished_bears hinit hside hreplay
  have hput := e.sessions.seat_putNext ρ.dst hc { s with stage := .transport t 0 }
  have hpromote : (((e.sessions.putNext ρ.dst { s with stage := .transport t 0 }).promote ρ.dst
      r.now).seat ρ.dst).Plays ρ.src ρ.dst r.now
      { p with current := some (.ready ⟨t, 0, 0⟩), next := none, previous := some l } := by
    rw [seat_promote _ _ (by rw [hput]; exact hc) hb₀.isReady (by rw [hput]), hput]
    refine ⟨.ready hbears, .empty, ?_, hp.queue, hp.queueable, hp.room⟩
    rintro k ⟨⟩
    exact ⟨(s₀, r.now), rfl, by simp [previousGraceSecs], hb₀⟩
  set promoted : Engine := { e with sessions :=
    (e.sessions.putNext ρ.dst { s with stage := .transport t 0 }).promote ρ.dst r.now } with hpromoted
  have hpromotes : promoted.Enacts codec ρ r.now _ := he.become hpromote
  have halive := keepalive_conducts hpromotes rfl
  have hserves' := hpromotes.serves.sends (promoted.sends_keepalive ρ.dst r.now)
  have hkept : (promoted.keepalive ρ.dst).1.Enacts codec ρ r.now _ := ⟨he.valid, hserves', halive.plays⟩
  have hcond := flushPending_conducts hkept.noteSent rfl (.inl hq)
  rw [flushed_of_empty rfl (by exact hq)] at hcond
  have hready := hbears.isReady
  unfold onHandshake
  simp only [hflight, finish_reply hstage, hready, Bool.and_self, if_true, ← hpromoted]
  refine ⟨hcond.plays, ?_⟩
  have hcounts : Utters ρ [.count .handshakesCompleted, .count .rekeysCompleted] [] := utters_nil
  exact (hcounts.append hcond.utters).append halive.utters

theorem onHandshake_answer (he : e.Enacts codec ρ r.now p)
    (htake : p.takeAnswer Transcript.first t = some q) :
    Conducts ρ r.now (e.onHandshake codec ρ.dst (some (.reply t)) r) q := by
  unfold takeAnswer at htake
  split at htake
  · rename_i f hcurrent hn
    split_ifs at htake with hfirst
    subst hfirst
    cases htake
    exact onHandshake_answer_first he hcurrent hn
  · rename_i l f hcurrent hn
    split_ifs at htake with hfirst
    obtain ⟨rfl, hq⟩ := hfirst
    cases htake
    exact onHandshake_answer_next he hcurrent hn (isEmpty_iff.mp hq)
  · cases htake

theorem Heeds.mark {msg : Option Message} (h : Heeds codec peer r msg e e' es) (key : Key) :
    e'.sessions.lastHandshakeTs peer key = e.sessions.lastHandshakeTs peer key ∨
      ∃ i, msg = some (.initiation i) ∧
        e'.sessions.lastHandshakeTs peer key = some (Tai64n.fromPayload i.payload) := by
  induction h with
  | held | refused | stale => exact .inl rfl
  | yieldedNext _ _ _ _ ih | yieldedFirst _ _ _ _ ih => exact ih
  | completed _ _ _ _ hsends | replaced _ _ _ hsends => exact .inl (congrFun₂ hsends.marks _ _)
  | @answered _ _ m _ _ _ hmsg _ _ _ hmarks hsends =>
    have hmark := congrFun₂ (hsends.marks.trans hmarks) peer key
    by_cases hkey : key = m.initiator
    · exact .inr ⟨m, hmsg, hmark.trans (if_pos ⟨rfl, hkey⟩)⟩
    · exact .inl (hmark.trans (if_neg fun h => hkey h.2))

/-- What a frame that stands for a letter does to the engine, its watermark and its party. -/
theorem receive_conducts (he : e.Enacts codec ρ r.now p) {f : OutFrame} {c : EngineLetter} (hf : Spells ρ.flip f c)
    (hnew : ∀ i, c = .ask i →
      (e.sessions.lastHandshakeTs ρ.dst ρ.dstKey).any (Tai64n.fromPayload i.payload ≤ ·) = false)
    {i₀ : Initiation}
    (htake : p.take Transcript.first (decide (ρ.src < ρ.dst)) ⟨i₀, r.ephemeral⟩ c = some q) :
    (Net.receive codec e f r).1 = { e with sessions := (Net.receive codec e f r).1.sessions } ∧
      ((Net.receive codec e f r).1.sessions.lastHandshakeTs ρ.dst ρ.dstKey =
          e.sessions.lastHandshakeTs ρ.dst ρ.dstKey ∨
        ∃ i, c = .ask i ∧ (Net.receive codec e f r).1.sessions.lastHandshakeTs ρ.dst ρ.dstKey =
          some (Tai64n.fromPayload i.payload)) ∧
      writtenPackets (Net.receive codec e f r).2 =
        (packets [c]).filter (e.peers.checkIngress ρ.dst · = .accept) ∧
      ∃ q', q.1.Does q' ∧ q'.1.accepted = q.1.accepted ∧ stamps q'.2 = [] ∧
        Conducts ρ r.now (Net.receive codec e f r) (q'.1, q.2 ++ q'.2) := by
  obtain ⟨hfits, hsrc, hdst, hwritten⟩ := hf
  have hsrc : f.header.srcId = ρ.dst := hsrc
  unfold Net.receive
  rw [hsrc]
  generalize f.ctr = ctr at hwritten ⊢
  generalize f.message = m at hwritten ⊢
  cases hwritten with
  | @ask i initiator responder prologue =>
    obtain rfl : i₀ = i := first_of_takeAsk htake
    have hheeds := e.heeds_onHandshake codec ρ.dst (some (.initiation i₀)) r
    have hcond := onHandshake_ask he ⟨initiator, responder, prologue⟩ (hnew i₀ rfl) htake
    refine ⟨hheeds.only, (hheeds.mark ρ.dstKey).imp_right ?_, hheeds.written, (q.1, []), .idle, rfl, rfl, ?_⟩
    · rintro ⟨i, hi, hmark⟩
      cases hi
      exact ⟨i₀, rfl, hmark⟩
    · rw [append_nil]
      exact hcond
  | answer t =>
    have hheeds := e.heeds_onHandshake codec ρ.dst (some (.reply t)) r
    have hcond := onHandshake_answer he htake
    refine ⟨hheeds.only, .inl ?_, hheeds.written, (q.1, []), .idle, rfl, rfl, ?_⟩
    · rcases hheeds.mark ρ.dstKey with hsame | ⟨i, hi, -⟩
      · exact hsame
      · cases hi
    · rw [append_nil]
      exact hcond
  | @data t b n packet side hn hlen =>
    obtain ⟨p', hp', rfl⟩ := Option.map_eq_some_iff.mp htake
    obtain ⟨hwrites, q', hdoes, hacc, hstamps, hcond⟩ := onData_conducts he hp' side hlen
    have hreads := e.reads_onData ρ.dst n (some (.sealed ⟨t, b, n, packet⟩)) r.now
    refine ⟨hreads.only, .inl (congrFun₂ hreads.marks _ _), ?_, q', hdoes, hacc, hstamps, hcond⟩
    rw [hwrites, packets_data, packets_nil, append_nil]

end Engine

end Nqvpn
