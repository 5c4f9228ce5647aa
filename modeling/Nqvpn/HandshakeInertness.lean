import Nqvpn.EngineActs

/-!
# Handshake messages nobody vouched for

A handshake message is worth acting on if the peer's published key made it for us
just now: it is the reply to a handshake of ours, or an initiation newer than
every one taken before. Any other message should leave the session table as it
was. The main result says exactly when it does: the engine gives up a handshake
of its own, before it has authenticated anything, whenever its node id is the
lower one and the message is not the reply.
-/

namespace Nqvpn

namespace Engine

variable {codec : EngineCodec} {e : Engine} {peer : NodeId}

/-- A message the peer's published static key produced freshly for us. `seen` are
the timestamps of the initiations already taken from the peer under that key,
whether or not the table still holds a watermark for them. -/
inductive Fresh (codec : EngineCodec) (e : Engine) (peer : NodeId) (seen : List Tai64n) :
    Option Message → Prop
  | reply {t : Transcript} : e.InFlight peer t.first →
      e.peers.pubkeyOf codec.base64 peer = some t.first.responder →
      Fresh codec e peer seen (some (.reply t))
  | initiation {m : Initiation} : Initiates codec e peer m → ¬ e.Stale peer m →
      (∀ ts ∈ seen, ts < Tai64n.fromPayload m.payload) →
      Fresh codec e peer seen (some (.initiation m))

/-- When a handshake message is without effect. With a handshake of our own in
flight: our id is not the lower one, and the message is not its reply. Otherwise:
it is no initiation by the published key that the held watermark lets through. -/
def Inert (codec : EngineCodec) (e : Engine) (peer : NodeId) (msg : Option Message) : Prop :=
  match e.awaited peer with
  | some first => peer ≤ e.myNodeId ∧ NoiseIK.readReply first msg = none
  | none => ∀ m, msg = some (.initiation m) → Initiates codec e peer m → e.Stale peer m

variable {e' : Engine} {now : Nat} {r : Reading} {es : List EngineEffect} {msg : Option Message}

theorem Sends.awaited_eq_none (h : Sends peer now e e' es) (hnone : e.awaited peer = none) :
    e'.awaited peer = none := by
  induction h with
  | nothing => exact hnone
  | counted _ _ ih | queued _ _ ih => exact ih hnone
  | @sealed e _ _ s' _ _ _ _ _ hget hseal _ _ ih =>
    refine ih (Engine.awaited_eq_none.mpr ⟨?_, ?_⟩)
    · exact (SessionTable.nextInFlight_put _ _ _).trans (Engine.awaited_eq_none.mp hnone).1
    · simp [SessionTable.firstInFlight, SessionTable.get_put _ _ hget, isReady_sealPacket hseal]
  | noted _ ih =>
    refine ih (Engine.awaited_eq_none.mpr ?_)
    simpa [SessionTable.firstInFlight] using Engine.awaited_eq_none.mp hnone

/-- A message is put aside because ours is the higher id, or no handshake of ours is in flight after it. -/
theorem Heeds.held_or_awaited (h : Heeds codec peer r msg e e' es) :
    (∃ first, e.awaited peer = some first ∧ peer ≤ e.myNodeId ∧ NoiseIK.readReply first msg = none) ∨
      e'.awaited peer = none := by
  induction h with
  | held hhigher hawaited hread => exact .inl ⟨_, hawaited, hhigher, hread⟩
  | refused hnone | stale hnone => exact .inr hnone
  | yieldedNext hlower _ _ _ ih | yieldedFirst hlower _ _ _ ih =>
    exact .inr (ih.resolve_left fun ⟨_, _, hhigher, _⟩ => Nat.not_le.mpr hlower hhigher)
  | @completed e _ s t _ hnext hfirst _ _ hsends =>
    refine .inr (hsends.awaited_eq_none (Engine.awaited_eq_none.mpr ⟨?_, ?_⟩))
    · exact (SessionTable.nextInFlight_put _ _ _).trans hnext
    · have hget : e.sessions.get peer = some s := (Option.filter_eq_some_iff.mp hfirst).1
      simp [SessionTable.firstInFlight, SessionTable.get_put _ _ hget, PairSession.isReady]
  | @replaced e _ n t _ _ hnext _ _ hsends =>
    refine .inr (hsends.awaited_eq_none (Engine.awaited_eq_none.mpr ⟨?_, ?_⟩))
    · exact e.sessions.nextInFlight_promote_putNext peer r.now
    · obtain ⟨p, hp, -⟩ := Option.bind_eq_some_iff.mp hnext
      simp [SessionTable.firstInFlight, SessionTable.get, SessionTable.promote, SessionTable.putNext,
        SessionTable.sessions_modifyPeer, hp, PeerSessions.promote, PairSession.isReady]
  | @answered e _ m t _ hnone _ _ _ ht _ hsends =>
    obtain ⟨hnext, hfirst⟩ := Engine.awaited_eq_none.mp hnone
    have hinstalled := e.sessions.inFlight_installResponder peer (s := answering peer m r) rfl hnext hfirst
    refine .inr (hsends.awaited_eq_none (Engine.awaited_eq_none.mpr ?_))
    simpa [SessionTable.nextInFlight, SessionTable.firstInFlight, SessionTable.get, ht] using hinstalled

theorem Heeds.sessions_eq_iff (h : Heeds codec peer r msg e e' es) :
    e'.sessions = e.sessions ↔ e.Inert codec peer msg := by
  -- A handshake of ours that was in flight and is over leaves another table.
  have hover {first : Initiation} (hawaited : e.awaited peer = some first)
      (hnot : ¬ (peer ≤ e.myNodeId ∧ NoiseIK.readReply first msg = none)) :
      e'.sessions = e.sessions ↔ e.Inert codec peer msg := by
    refine iff_of_false (fun hsame => ?_) (by rwa [Inert, hawaited])
    have hsame' : e'.awaited peer = some first := by rw [awaited, hsame, ← hawaited, awaited]
    rcases h.held_or_awaited with ⟨first', hfirst', hheld⟩ | hend
    · cases hawaited.symm.trans hfirst'
      exact hnot hheld
    · cases hsame'.symm.trans hend
  cases h with
  | held hhigher hawaited hread => exact iff_of_true rfl (by rw [Inert, hawaited]; exact ⟨hhigher, hread⟩)
  | refused hnone _ hnot =>
    refine iff_of_true rfl ?_
    rw [Inert, hnone]
    exact fun m hm hi => absurd hi (hnot m hm)
  | stale hnone hm _ hstale =>
    refine iff_of_true rfl ?_
    rw [Inert, hnone]
    rintro m' hm' -
    cases hm.symm.trans hm'
    exact hstale
  | yieldedNext hlower hawaited | yieldedFirst hlower hawaited =>
    exact hover hawaited fun hheld => Nat.not_le.mpr hlower hheld.1
  | @completed _ _ s t _ hnext hfirst hstage hread =>
    have hawaited : e.awaited peer = some t.first := by
      rw [awaited, hnext, Option.none_or, hfirst, Option.map_some, PairSession.first, hstage]
    exact hover hawaited fun hheld => by simp [hread] at hheld
  | @replaced _ _ n t _ _ hnext hstage hread =>
    have hawaited : e.awaited peer = some t.first := by
      rw [awaited, hnext, Option.some_or, Option.map_some, PairSession.first, hstage]
    exact hover hawaited fun hheld => by simp [hread] at hheld
  | answered hnone hm hi hnew _ hmarks hsends =>
    refine iff_of_false (fun hsame => hnew ?_) fun hinert => hnew ?_
    · -- The watermark held before would have refused the message.
      rw [Stale, ← hsame, hsends.marks, hmarks]
      simp
    · rw [Inert, hnone] at hinert
      exact hinert _ hm hi

/-- A handshake message that the peer's published key did not freshly make for us
leaves the session table unchanged exactly when it is `Inert`. -/
theorem unvouched_handshake_inert_iff (codec : EngineCodec) (e : Engine) (peer : NodeId)
    (seen : List Tai64n) (body : List UInt8) (r : Reading)
    (_ : ¬ Fresh codec e peer seen (codec.message.read body)) :
    (e.onHandshake codec peer (codec.message.read body) r).1.sessions = e.sessions ↔
      e.Inert codec peer (codec.message.read body) :=
  (heeds_onHandshake codec e peer (codec.message.read body) r).sessions_eq_iff

namespace HandshakeExample

def numbering : EngineCodec := ⟨fun _ => some (List.replicate 32 7), .numbering⟩

def idle : Engine :=
  .new 1 "u" [1] ((PeerTable.new 1).replaceAll [⟨2, "b", .client, [], "k", true, 0⟩]) 1500 1

def reading : Reading := ⟨100, ⟨100, 0⟩, 0⟩

def waiting : Engine :=
  { idle with
    sessions := ((SessionTable.default.queue 2 [0x45]).1.initiateAt [1] 2 (List.replicate 32 7) "u" 1
      100 ⟨100, 0⟩ 0).1 }

def started : PairSession :=
  (PairSession.initiateAt [1] 2 (List.replicate 32 7) "u" 1 100 ⟨100, 0⟩ 0).1

end HandshakeExample

open HandshakeExample in
/-- A node without sessions ignores bytes that are no message. -/
theorem unvouched_handshake_inert_idle :
    ¬ Fresh numbering idle 2 [] (numbering.message.read []) ∧
      (idle.onHandshake numbering 2 (numbering.message.read []) reading).1.sessions = idle.sessions := by
  have hstale : ¬ Fresh numbering idle 2 [] (numbering.message.read []) := by
    intro h
    cases h
  refine ⟨hstale, (unvouched_handshake_inert_iff numbering idle 2 [] [] reading hstale).mpr ?_⟩
  have hnone : idle.awaited 2 = none := by
    simp [awaited, idle, Engine.new, SessionTable.nextInFlight, SessionTable.firstInFlight,
      SessionTable.get, SessionTable.default]
  intro m hm
  cases hm

open HandshakeExample in
/-- One datagram of no bytes ends the handshake node 1 has in flight with node 2,
and drops the packet that waits for it. -/
theorem empty_handshake_ends_ours :
    ¬ Fresh numbering waiting 2 [] (numbering.message.read []) ∧
      waiting.sessions.firstInFlight 2 = some started ∧
      waiting.sessions.pending[2]? = some [[0x45]] ∧
      (waiting.onHandshake numbering 2 (numbering.message.read []) reading).1.sessions.firstInFlight 2 =
        none ∧
      (waiting.onHandshake numbering 2 (numbering.message.read []) reading).1.sessions.pending[2]? = none := by
  have hfirst : waiting.sessions.firstInFlight 2 = some started := by
    rfl
  have hnext : waiting.sessions.nextInFlight 2 = none := by
    rfl
  have hafter : (waiting.onHandshake numbering 2 (numbering.message.read []) reading).1.sessions =
      (waiting.sessions.takePending 2).1.remove 2 := by
    rfl
  refine ⟨fun h => ?_, hfirst, ?_, ?_, ?_⟩
  · cases h
  · simp [waiting, SessionTable.initiateAt, SessionTable.setEntry, SessionTable.queue,
      SessionTable.default, pendingLimit]
  · exact (inFlight_remove waiting.sessions 2).2
  · rw [hafter]
    simp [SessionTable.remove]

end Engine

end Nqvpn
