import Nqvpn.EngineParty
import Nqvpn.HandshakeInertness

/-!
# What a call does to the sessions of a peer

A call of the engine is about one peer, and what it does to the entry of that peer is a sequence of a
few changes. Some of them only word from the peer brings about: a frame that one of its sessions opens,
the reply to a handshake of ours, or an initiation its published key made for us.
-/

namespace Nqvpn

open Relation (ReflTransGen)

namespace PeerSessions

/-- Add an answered handshake: it waits in `next` while a ready session is there. -/
def answered (p : PeerSessions) (s : PairSession) : PeerSessions :=
  let p := { p with awaitingSince := none }
  if p.current.any (·.isReady) then { p with next := some s } else { p with current := some s }

/-- One change of what is held for a peer. `own` are the handshakes we start, and `heard` says whether
there was word from the peer. -/
inductive Change (own : PairSession → Prop) (now : Nat) (heard : Bool) :
    Option PeerSessions → Option PeerSessions → Prop
  | sealed {p : PeerSessions} {c s : PairSession} : p.current = some c → c.isReady = true →
      s.isReady = true → Change own now heard (some p) (some { p with current := some s })
  | noted {p : PeerSessions} : Change own now heard (some p)
      (some { p with awaitingSince := p.awaitingSince.or (some now), lastSent := now })
  | replacing {p : PeerSessions} {c n : PairSession} : p.current = some c → c.isReady = true → own n →
      Change own now heard (some p) (some { p with next := some n })
  | started {o : Option PeerSessions} {n : PairSession} : own n → n.isReady = false →
      Change own now heard o
        (some { o.getD .default with current := some n, next := none, awaitingSince := none })
  | yielded {p : PeerSessions} : Change own now heard (some p) (some { p with next := none })
  | removed {o : Option PeerSessions} : Change own now heard o none
  | answered {o : Option PeerSessions} {s : PairSession} : heard = true → s.isReady = true →
      Change own now heard o (some ((o.getD .default).answered s))
  | completed {p : PeerSessions} {s : PairSession} : heard = true → s.isReady = true →
      Change own now heard (some p) (some { p with current := some s })
  | replaced {p : PeerSessions} {s : PairSession} : heard = true → s.isReady = true →
      Change own now heard (some p) (some ({ p with next := some s }.promote now))
  | opened {p p' : PeerSessions} {ctr : Nat} {msg : Option Message} {v : Packet} : heard = true →
      p.unsealAny ctr msg now = .ok (p', v) →
      Change own now heard (some p) (some { p' with awaitingSince := none })

end PeerSessions

namespace SessionTable

/-- A table becomes another by changes of the entry of one peer. -/
structure Moves (peer : NodeId) (own : PairSession → Prop) (now : Nat) (heard : Bool)
    (t t' : SessionTable) : Prop where
  others : ∀ a, a ≠ peer → t'.sessions[a]? = t.sessions[a]?
  entry : ReflTransGen (PeerSessions.Change own now heard) t.sessions[peer]? t'.sessions[peer]?

variable {peer : NodeId} {own : PairSession → Prop} {now : Nat} {heard : Bool} {t t' t'' : SessionTable}

theorem Moves.of_eq (h : t'.sessions = t.sessions) : Moves peer own now heard t t' :=
  ⟨fun _ _ => by rw [h], by rw [h]⟩

theorem Moves.trans (h : Moves peer own now heard t t') (h' : Moves peer own now heard t' t'') :
    Moves peer own now heard t t'' :=
  ⟨fun a ha => (h'.others a ha).trans (h.others a ha), h.entry.trans h'.entry⟩

theorem moves_modifyPeer {f : PeerSessions → PeerSessions}
    (hf : ∀ p, t.sessions[peer]? = some p → PeerSessions.Change own now heard (some p) (some (f p))) :
    Moves peer own now heard t (t.modifyPeer peer f) := by
  refine ⟨fun a ha => by rw [sessions_modifyPeer, if_neg (Ne.symm ha)], ?_⟩
  rw [sessions_modifyPeer, if_pos rfl]
  cases hp : t.sessions[peer]? with
  | none => exact .refl
  | some p => exact .single (hf p hp)

theorem moves_setEntry {p : PeerSessions}
    (hp : PeerSessions.Change own now heard t.sessions[peer]? (some p)) :
    Moves peer own now heard t (t.setEntry peer p) := by
  refine ⟨fun a ha => by rw [sessions_setEntry, if_neg (Ne.symm ha)], ?_⟩
  rw [sessions_setEntry, if_pos rfl]
  exact .single hp

theorem moves_noteSent : Moves peer own now heard t (t.noteSent peer now) :=
  moves_modifyPeer fun _ _ => .noted

theorem moves_put {c s : PairSession} (hget : t.get peer = some c) (hc : c.isReady)
    (hs : s.isReady) : Moves peer own now heard t (t.put peer s) := by
  refine moves_modifyPeer fun p hp => ?_
  rw [get, hp, Option.bind_some] at hget
  exact .sealed hget hc hs

theorem promote_putNext (s : PairSession) :
    (t.putNext peer s).promote peer now = t.modifyPeer peer fun p => { p with next := some s }.promote now := by
  have hsame : ((t.putNext peer s).promote peer now).sessions =
      (t.modifyPeer peer fun p => { p with next := some s }.promote now).sessions := by
    refine Std.ExtTreeMap.ext_getElem? fun a => ?_
    simp only [promote, putNext, sessions_modifyPeer, if_true]
    split_ifs
    · rw [Option.map_map]
      rfl
    · rfl
  exact congrArg (fun sessions => { t with sessions }) hsame

theorem moves_remove : Moves peer own now heard t ((t.takePending peer).1.remove peer) := by
  refine ⟨fun a ha => ?_, .single ?_⟩
  · simp [remove, takePending, Std.ExtTreeMap.getElem?_erase, Ne.symm ha]
  · have hnone : ((t.takePending peer).1.remove peer).sessions[peer]? = none := by
      simp [remove, takePending]
    rw [hnone]
    exact .removed

end SessionTable

namespace Engine

open SessionTable

section Moving

variable {codec : EngineCodec} {e : Engine} {peer : NodeId} {own : PairSession → Prop} {now : Nat} {heard : Bool}

/-! ### Sending -/

variable {ctr : Nat} {e' : Engine} {es : List EngineEffect} {r : Reading} {c : PairSession}
  {msg : Option Message}

theorem isReady_of_sealPacket {s s' : PairSession} {packet : Packet} {c : SealedPacket}
    (h : s.sealPacket packet = some (s', ctr, c)) : s.isReady := by
  unfold PairSession.sealPacket at h
  cases hs : s.stage with
  | handshake first =>
    rw [hs] at h
    cases h
  | transport t n => simp [PairSession.isReady, hs]

theorem Sends.moves (h : Sends peer now e e' es) :
    Moves peer own now heard e.sessions e'.sessions := by
  induction h with
  | nothing => exact .of_eq rfl
  | counted _ _ ih => exact ih
  | sealed hget hseal _ _ ih =>
    exact (moves_put hget (isReady_of_sealPacket hseal) (isReady_sealPacket hseal)).trans ih
  | noted _ ih => exact moves_noteSent.trans ih
  | queued _ _ ih => exact ⟨ih.others, ih.entry⟩

/-! ### Packets from the device -/

/-- The handshakes we start with the peer count as `own`. -/
def Starts (e : Engine) (peer : NodeId) (own : PairSession → Prop) : Prop :=
  ∀ pk now ts ephemeral, own (PairSession.initiateAt e.key peer pk e.networkUuid e.myNodeId now ts ephemeral).1

theorem Asks.moves (h : Asks codec peer r e e' es) (hown : e.Starts peer own) : Moves peer own now heard e.sessions e'.sessions := by
  cases h with
  | nothing => exact .of_eq rfl
  | rekey _ _ hp hcurrent hready =>
    refine moves_setEntry ?_
    rw [SessionTable.entry, hp, Option.getD_some]
    exact .replacing hcurrent hready (hown _ _ _ _)
  | first => exact moves_setEntry (.started (hown _ _ _ _) rfl)

def afterSeal (c : PairSession) (packet : Packet) : PairSession :=
  ((c.sealPacket packet).map (·.1)).getD c

theorem isReady_afterSeal (hc : c.isReady) (packet : Packet) :
    (afterSeal c packet).isReady := by
  unfold afterSeal
  cases hseal : c.sealPacket packet with
  | none => exact hc
  | some sealed => exact isReady_sealPacket hseal

/-- The engine that has sent on `s`. -/
def noting (e : Engine) (peer : NodeId) (s : PairSession) (now : Nat) : Engine :=
  { e with sessions := (e.sessions.put peer s).noteSent peer now }

theorem sendOn_eq (hget : e.sessions.get peer = some c) (packet : Packet) (r : Reading) :
    (e.sendOn codec peer c packet r).1 =
      if (e.noting peer (afterSeal c packet) r.now).sessions.rekeyDue peer r.now then
        ((e.noting peer (afterSeal c packet) r.now).startRekey codec peer r).1
      else e.noting peer (afterSeal c packet) r.now := by
  cases hseal : c.sealPacket packet with
  | none =>
    have hnoting : e.noting peer (afterSeal c packet) r.now =
        { e with sessions := e.sessions.noteSent peer r.now } := by
      simp [noting, afterSeal, hseal, put_self hget]
    rw [hnoting]
    unfold sendOn
    simp only [hseal]
    split_ifs <;> rfl
  | some sealed =>
    have hnoting : e.noting peer (afterSeal c packet) r.now =
        { e with sessions := (e.sessions.put peer sealed.1).noteSent peer r.now } := by
      simp [noting, afterSeal, hseal]
    rw [hnoting]
    unfold sendOn
    simp only [hseal]
    split_ifs <;> rfl

/-! ### Handshake messages -/

def HearsHandshake (codec : EngineCodec) (e : Engine) (peer : NodeId) (msg : Option Message) : Prop :=
  (∃ first t, e.InFlight peer first ∧ NoiseIK.readReply first msg = some t) ∨
    ∃ m, msg = some (.initiation m) ∧ Initiates codec e peer m ∧ ¬ e.Stale peer m

theorem HearsHandshake.of_yielded {t : SessionTable} {msg : Option Message}
    (h : HearsHandshake codec { e with sessions := t } peer msg)
    (hflight : ∀ first, InFlight { e with sessions := t } peer first → e.InFlight peer first)
    (hmarks : t.lastHandshakeTs = e.sessions.lastHandshakeTs) : HearsHandshake codec e peer msg := by
  rcases h with ⟨first, t', hin, hread⟩ | ⟨m, hm, hi, hstale⟩
  · exact .inl ⟨first, t', hflight first hin, hread⟩
  · rw [Stale, hmarks] at hstale
    exact .inr ⟨m, hm, hi, hstale⟩

theorem Heeds.moves (h : Heeds codec peer r msg e e' es)
    (hheard : HearsHandshake codec e peer msg → heard) :
    Moves peer own r.now heard e.sessions e'.sessions := by
  induction h with
  | held | refused | stale => exact .of_eq rfl
  | @yieldedNext e _ _ _ _ _ _ _ ih =>
    have hyielded : Moves peer own r.now heard e.sessions (e.sessions.dropNext peer) :=
      moves_modifyPeer fun p hp => .yielded
    have hget : (e.sessions.dropNext peer).get peer = e.sessions.get peer := get_modifyPeer _ _ fun _ => rfl
    refine hyielded.trans (ih fun hears => hheard (hears.of_yielded (fun first hin => .inr ?_) rfl))
    simpa [InFlight, firstInFlight, hget] using hin
  | @yieldedFirst e _ _ _ _ _ _ _ ih =>
    obtain ⟨hnext, hfirst⟩ := inFlight_remove e.sessions peer
    refine moves_remove.trans (ih fun hears => hheard (hears.of_yielded (fun first hin => ?_) rfl))
    simp [InFlight, hnext, hfirst] at hin
  | @completed e _ s t _ _ hfirst hstage hread hsends =>
    have hword : heard := by
      refine hheard (.inl ⟨t.first, t, .inr ?_, hread⟩)
      rw [hfirst, Option.map_some, PairSession.first, hstage]
    have hput : Moves peer own r.now heard e.sessions
        (e.sessions.put peer { s with stage := .transport t 0 }) :=
      moves_modifyPeer fun p hp => .completed hword rfl
    exact hput.trans hsends.moves
  | @replaced e _ n t _ _ hnext hstage hread hsends =>
    have hword : heard := by
      refine hheard (.inl ⟨t.first, t, .inl ?_, hread⟩)
      rw [hnext, Option.map_some, PairSession.first, hstage]
    have hpromoted : Moves peer own r.now heard e.sessions
        ((e.sessions.putNext peer { n with stage := .transport t 0 }).promote peer r.now) := by
      rw [promote_putNext]
      exact moves_modifyPeer fun p hp => .replaced hword rfl
    exact hpromoted.trans hsends.moves
  | @answered e _ m t _ _ hm hi hstale ht _ hsends =>
    have hinstalled : Moves peer own r.now heard e.sessions
        (e.sessions.installResponder peer (answering peer m r)) :=
      moves_setEntry (.answered (hheard (.inr ⟨m, hm, hi, hstale⟩)) rfl)
    exact (hinstalled.trans (.of_eq ht)).trans hsends.moves

/-! ### Data frames -/

def HearsFrame (e : Engine) (peer : NodeId) (ctr : Nat) (msg : Option Message) (now : Nat) : Prop :=
  ∃ opened, e.sessions.unsealFrame peer ctr msg now = .ok opened

theorem Reads.moves {result : Engine × List EngineEffect} (h : e.Reads peer ctr msg now result)
    (hheard : e.HearsFrame peer ctr msg now → heard) :
    Moves peer own now heard e.sessions result.1.sessions := by
  rcases h with ⟨hsame, -⟩ | ⟨t, inner, es, es', hopen, hsends, -⟩
  · exact .of_eq (by rw [hsame])
  · obtain ⟨p, p', hp, hany, rfl⟩ := unsealFrame_entry hopen
    refine Moves.trans (moves_setEntry ?_) hsends.moves
    rw [hp]
    exact .opened (hheard ⟨_, hopen⟩) hany

/-! ### Calls -/

def Hears (codec : EngineCodec) (e : Engine) (peer : NodeId) (now : Nat) (datagram : Datagram) : Prop :=
  ∃ h, RoutedHeader.parse datagram = some h ∧ h.srcId = peer ∧ h.dstId = e.myNodeId ∧
    if h.kind = tHandshake then HearsHandshake codec e peer (codec.message.read (datagram.drop routedHeaderLen))
    else e.HearsFrame peer (BigEndian.ofBytes ((datagram.drop routedHeaderLen).take 8))
      (codec.message.read ((datagram.drop routedHeaderLen).drop 8)) now

variable {owns : NodeId → PairSession → Prop}

variable (codec heard) in
theorem moves_outbound (hown : ∀ a, e.Starts a (owns a)) (packet : Packet) (r : Reading) :
    (e.outbound codec packet r).1 = e ∨ ∃ owner, e.ownerFor packet = some owner ∧
      Moves owner (owns owner) r.now heard e.sessions (e.outbound codec packet r).1.sessions := by
  cases howner : e.ownerFor packet with
  | none => exact .inl (outbound_of_no_owner codec r howner).1
  | some owner =>
    obtain ⟨mid, es, es', hsends, hasks, -⟩ := forwards_outbound codec howner r
    have hstarts : mid.Starts owner (owns owner) := by
      rw [hsends.only]
      exact hown owner
    exact .inr ⟨owner, rfl, hsends.moves.trans (hasks.moves hstarts)⟩

variable (codec e owns) in
open Classical in
theorem moves_inbound (datagram : Datagram) (r : Reading) :
    (e.inbound codec datagram r).1.sessions = e.sessions ∨ ∃ src heard,
      (heard = true → e.Hears codec src r.now datagram) ∧
        Moves src (owns src) r.now heard e.sessions (e.inbound codec datagram r).1.sessions := by
  cases receives_inbound codec e datagram r with
  | nothing notes hsame => exact .inl (by rw [hsame])
  | @handshake h hparse hdst hkind hheeds =>
    have hmessage : messageIn codec datagram = codec.message.read (datagram.drop routedHeaderLen) := by
      simp [messageIn, hparse, hkind]
    rw [hmessage] at hheeds
    refine .inr ⟨h.srcId, decide (HearsHandshake codec e h.srcId (codec.message.read (datagram.drop routedHeaderLen))),
      fun hheard => ⟨h, hparse, rfl, hdst, ?_⟩, hheeds.moves decide_eq_true⟩
    rw [if_pos hkind]
    exact of_decide_eq_true hheard
  | @data h hparse hdst hkind hreads =>
    have hmessage : messageIn codec datagram = codec.message.read ((datagram.drop routedHeaderLen).drop 8) := by
      simp [messageIn, hparse, hkind]
    rw [hmessage] at hreads
    refine .inr ⟨h.srcId, decide (e.HearsFrame h.srcId (BigEndian.ofBytes ((datagram.drop routedHeaderLen).take 8))
      (codec.message.read ((datagram.drop routedHeaderLen).drop 8)) r.now),
      fun hheard => ⟨h, hparse, rfl, hdst, ?_⟩, hreads.moves decide_eq_true⟩
    rw [if_neg hkind]
    exact of_decide_eq_true hheard

end Moving

end Engine

end Nqvpn
