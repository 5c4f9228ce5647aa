import Nqvpn.Engine
import Nqvpn.HandoverDelivery

/-!
# What a session table holds for one peer

A peer's seat is its three sessions and the packets that wait for one. Every
operation of the table is described by what it does to the seat of the peer it is
for; the others keep theirs. A session that bears a line of the abstract protocol
seals and opens as that line sends and takes.
-/

namespace Nqvpn

open Handover NoiseIK

/-! ### Sessions -/

/-- Which side of the handshake a session with `peer` is on. -/
def Side (me peer : NodeId) (t : Transcript) (initiator : Bool) : Prop :=
  t.first.prologue.initiator = if initiator then me else peer

theorem Side.opposite {me peer : NodeId} (hne : me ≠ peer) {t : Transcript} {a b : Bool}
    (ha : Side me peer t a) (hb : Side peer me t b) : b = !a := by
  cases a <;> cases b
  · exact absurd (hb.symm.trans ha) hne
  · rfl
  · rfl
  · exact absurd (ha.symm.trans hb) hne

namespace PairSession

/-- The session is our end of the line `l` with `peer`. -/
structure Bears (me peer : NodeId) (s : PairSession) (l : Line Transcript) : Prop where
  stage : s.stage = .transport l.session l.sent
  replay : s.replay.Open l.taken
  side : Side me peer l.session s.initiator

variable {me peer : NodeId} {s : PairSession} {l : Line Transcript}

theorem Bears.isReady (h : s.Bears me peer l) : s.isReady := by
  simp [PairSession.isReady, h.stage]

def CanSeal (l : Line Transcript) (packet : Packet) : Prop :=
  l.sent < 2 ^ 64 - 1 ∧ packet.length + tagLen ≤ maxMessage

variable {packet : Packet} {n : Nat}

theorem Bears.sealPacket (h : s.Bears me peer l) (hseal : CanSeal l packet) :
    ∃ s', s.sealPacket packet = some (s', l.sent, ⟨l.session, s.initiator, l.sent, packet⟩) ∧
      s'.Bears me peer { l with sent := l.sent + 1 } := by
  refine ⟨{ s with stage := .transport l.session (l.sent + 1), messages := s.messages + 1 }, ?_,
    rfl, h.replay, h.side⟩
  unfold PairSession.sealPacket
  rw [h.stage]
  exact if_pos hseal

theorem Bears.sealPacket_eq_none (h : s.Bears me peer l) (hseal : ¬ CanSeal l packet) : s.sealPacket packet = none := by
  unfold PairSession.sealPacket
  rw [h.stage]
  exact if_neg hseal

theorem Bears.unsealFrame (h : s.Bears me peer l) (hne : me ≠ peer) {b : Bool} (hn : l.taken ≤ n)
    (hb : Side peer me l.session b) (hlen : packet.length + tagLen ≤ maxMessage) :
    ∃ s', s.unsealFrame n (some (.sealed ⟨l.session, b, n, packet⟩)) = .ok (s', packet) ∧
      s'.Bears me peer { l with taken := n + 1 } := by
  refine ⟨{ s with replay := s.replay.commit n }, ?_, h.stage, h.replay.commit hn, h.side⟩
  have hopen : unlock l.session (!s.initiator) n
      (some (.sealed ⟨l.session, b, n, packet⟩)) = some packet := by
    rw [h.side.opposite hne hb]
    exact unlock_eq_some.mpr ⟨rfl, hlen⟩
  unfold PairSession.unsealFrame
  split
  · rename_i first hstage
    rw [h.stage] at hstage
    cases hstage
  · rename_i t ctr hstage
    rw [h.stage] at hstage
    cases hstage
    simp [h.replay.check hn, hopen]

theorem Bears.unsealFrame_ne (h : s.Bears me peer l) {c : SealedPacket} (hne : c.transcript ≠ l.session) :
    ∃ err, s.unsealFrame n (some (.sealed c)) = .error err := by
  have hopen : unlock l.session (!s.initiator) n (some (.sealed c)) = none := by
    cases hu : unlock l.session (!s.initiator) n (some (.sealed c)) with
    | none => rfl
    | some v =>
      obtain ⟨hc, -⟩ := unlock_eq_some.mp hu
      cases hc
      exact absurd rfl hne
  unfold PairSession.unsealFrame
  simp only [h.stage, hopen]
  split_ifs
  · exact ⟨_, rfl⟩
  · exact ⟨_, rfl⟩

end PairSession

/-! ### Seats -/

structure Seat where
  current : Option PairSession
  next : Option PairSession
  previous : Option (PairSession × Nat)
  queue : List Packet

namespace SessionTable

def seat (t : SessionTable) (peer : NodeId) : Seat where
  current := (t.entry peer).current
  next := (t.entry peer).next
  previous := (t.entry peer).previous
  queue := t.pending[peer]?.getD []

variable (t : SessionTable) (peer : NodeId) {a : NodeId}

theorem get_eq_seat : t.get peer = (t.seat peer).current := by
  unfold get seat entry
  cases t.sessions[peer]? with
  | none | some p => rfl

theorem isReady_eq_seat : t.isReady peer = (t.seat peer).current.any (·.isReady) := by
  rw [isReady, get_eq_seat]

theorem has_eq_seat :
    t.has peer = ((t.seat peer).current.isSome || (t.seat peer).next.isSome) := by
  unfold has seat entry
  cases t.sessions[peer]? with
  | none | some p => rfl

theorem nextInFlight_eq_seat :
    t.nextInFlight peer = (t.seat peer).next.filter fun s => s.initiator && !s.isReady := by
  unfold nextInFlight seat entry
  cases t.sessions[peer]? with
  | none | some p => rfl

theorem firstInFlight_eq_seat :
    t.firstInFlight peer = (t.seat peer).current.filter fun s => !s.isReady && s.initiator := by
  rw [firstInFlight, get_eq_seat]

variable {s s₀ : PairSession} {t' : SessionTable}

theorem sessions_of_current (h : (t.seat peer).current = some s) :
    t.sessions[peer]? = some (t.entry peer) := by
  unfold seat entry at h
  unfold entry
  cases hp : t.sessions[peer]? with
  | none =>
    rw [hp] at h
    cases h
  | some p => rfl

variable {t} in
theorem seat_congr (hs : t'.sessions[peer]? = t.sessions[peer]?) (hq : t'.pending[peer]? = t.pending[peer]?) : t'.seat peer = t.seat peer := by
  simp [seat, entry, hs, hq]

theorem seat_setEntry (p : PeerSessions) :
    (t.setEntry peer p).seat peer = ⟨p.current, p.next, p.previous, (t.seat peer).queue⟩ := by
  simp [seat, entry, setEntry]

theorem seat_setEntry_of_ne (p : PeerSessions) (ha : a ≠ peer) :
    (t.setEntry a p).seat peer = t.seat peer :=
  seat_congr peer (by simp [sessions_setEntry, ha]) rfl

theorem seat_modifyPeer (f : PeerSessions → PeerSessions) {p : PeerSessions}
    (hp : t.sessions[peer]? = some p) : (t.modifyPeer peer f).seat peer =
      ⟨(f p).current, (f p).next, (f p).previous, (t.seat peer).queue⟩ := by
  simp [seat, entry, hp, modifyPeer]

theorem seat_modifyPeer_of_ne (f : PeerSessions → PeerSessions) (ha : a ≠ peer) :
    (t.modifyPeer a f).seat peer = t.seat peer :=
  seat_congr peer (by simp [sessions_modifyPeer, ha]) rfl

@[simp] theorem seat_noteSent (now : Nat) : (t.noteSent a now).seat peer = t.seat peer := by
  by_cases ha : a = peer
  · subst ha
    unfold noteSent
    cases hp : t.sessions[a]? with
    | none => exact seat_congr a (by simp [sessions_modifyPeer, hp]) rfl
    | some p =>
      rw [seat_modifyPeer t a _ hp]
      simp [seat, entry, hp]
  · exact t.seat_modifyPeer_of_ne peer _ ha

theorem seat_put (h : (t.seat peer).current = some s) (s' : PairSession) :
    (t.put peer s').seat peer = { t.seat peer with current := some s' } := by
  rw [put, seat_modifyPeer t peer _ (t.sessions_of_current peer h)]
  rfl

theorem seat_queue (packet : Packet) (hroom : (t.seat peer).queue.length < pendingLimit) :
    (t.queue peer packet).1.seat peer =
        { t.seat peer with queue := (t.seat peer).queue ++ [packet] } ∧
      (t.queue peer packet).2 := by
  have hroom : (t.pending[peer]?.getD []).length < pendingLimit := hroom
  unfold queue
  simp only [Nat.not_le.mpr hroom, decide_false, Bool.not_false, and_true]
  simp [seat, entry]

theorem seat_takePending : (t.takePending peer).1.seat peer = { t.seat peer with queue := [] } := by
  simp [takePending, seat, entry]

theorem takePending_eq_queue : (t.takePending peer).2 = (t.seat peer).queue := rfl

theorem seat_remove : (t.remove peer).seat peer = ⟨none, none, none, []⟩ := by
  simp [remove, seat, entry, PeerSessions.default]

theorem seat_putNext (h : (t.seat peer).current = some s₀) (s : PairSession) :
    (t.putNext peer s).seat peer = { t.seat peer with next := some s } := by
  rw [putNext, seat_modifyPeer t peer _ (t.sessions_of_current peer h)]
  rfl

theorem seat_dropNext (h : (t.seat peer).current = some s₀) :
    (t.dropNext peer).seat peer = { t.seat peer with next := none } := by
  rw [dropNext, seat_modifyPeer t peer _ (t.sessions_of_current peer h)]
  rfl

theorem seat_promote {s' : PairSession} (hc : (t.seat peer).current = some s) (hs : s.isReady)
    (hn : (t.seat peer).next = some s') (now : Nat) :
    (t.promote peer now).seat peer =
      { t.seat peer with current := some s', next := none, previous := some (s, now) } := by
  have hc' : (t.entry peer).current = some s := hc
  have hn' : (t.entry peer).next = some s' := hn
  rw [promote, seat_modifyPeer t peer _ (t.sessions_of_current peer hc)]
  simp [PeerSessions.promote, hc', hn', hs, Option.filter]

theorem seat_installResponder (s : PairSession) : (t.installResponder peer s).seat peer =
    if (t.seat peer).current.any (·.isReady) then { t.seat peer with next := some s }
    else { t.seat peer with current := some s } := by
  unfold installResponder
  rw [seat_setEntry]
  split_ifs with h h' h'
  · rfl
  · exact absurd h h'
  · exact absurd h' h
  · rfl

theorem seat_acceptHandshakeTs {key : Key} {ts : Tai64n} (h : t.acceptHandshakeTs a key ts = some t') : t'.seat peer = t.seat peer := by
  obtain ⟨-, hs, hq, -⟩ := t.acceptHandshakeTs_eq_some a h
  exact seat_congr peer (by rw [hs]) (by rw [hq])
variable (packets : List Packet)

def requeue : SessionTable :=
  packets.foldl (fun t p => (t.queue peer p).1) t

theorem seat_requeue (hroom : (t.seat peer).queue.length + packets.length ≤ pendingLimit) :
    (t.requeue peer packets).seat peer =
      { t.seat peer with queue := (t.seat peer).queue ++ packets } := by
  induction packets generalizing t with
  | nil => simp [requeue]
  | cons x xs ih =>
    rw [List.length_cons] at hroom
    have hx := (t.seat_queue peer x (by omega)).1
    have hxs := ih (t.queue peer x).1 (by rw [hx]; simp; omega)
    rw [hx] at hxs
    refine hxs.trans ?_
    simp

end SessionTable

end Nqvpn
