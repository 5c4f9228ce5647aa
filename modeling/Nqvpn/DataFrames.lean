import Nqvpn.InPlace
import Nqvpn.SilentPeer

/-!
# What a data frame changes

A data frame names no session, so the receiver tries those of the peer in turn, in place: each attempt
has the session's replay window in its hands. A frame that none of them opens leaves everything as it
was. One that is opened changes the window of the session that opened it; if that was the replacement
under negotiation, it takes over.
-/

namespace Nqvpn

open InPlace PeerSessions PairSession Option

/-- `PairSession::unseal`: check the window, authenticate, commit. -/
def PairSession.unsealInPlace (ctr : Nat) (msg : Option Message) : EStateM SealError PairSession Packet := do
  let s ← get
  match s.stage with
  | .handshake _ => throw (.noSession s.peer)
  | .transport transcript _ =>
    if s.replay.check ctr = false then throw (.replay ctr)
    else
      match NoiseIK.unlock transcript (!s.initiator) ctr msg with
      | none => throw .noise
      | some plaintext =>
        set { s with replay := s.replay.commit ctr }
        return plaintext

theorem PairSession.unsealInPlace_eq (s : PairSession) (ctr : Nat) (msg : Option Message) :
    unsealInPlace ctr msg s = settle s ((s.unsealFrame ctr msg).map Prod.swap) := by
  unfold unsealInPlace unsealFrame
  refine get_bind.trans ?_
  cases s.stage with
  | handshake first => rfl
  | transport transcript nonce =>
    dsimp only
    split_ifs
    · rfl
    · cases NoiseIK.unlock transcript (!s.initiator) ctr msg <;> rfl

namespace PeerSessions

/-- Try the frame on the session of a slot, if there is one; the session is written back either way. -/
def trial (slot : PeerSessions → Option PairSession) (write : PairSession → PeerSessions → PeerSessions)
    (ctr : Nat) (msg : Option Message) :
    EStateM SealError PeerSessions (Option (Except SealError Packet)) := fun p =>
  match slot p with
  | none => .ok none p
  | some s =>
    match unsealInPlace ctr msg s with
    | .ok v s' => .ok (some (.ok v)) (write s' p)
    | .error e s' => .ok (some (.error e)) (write s' p)
variable (s : PairSession) (p : PeerSessions)

def readyCurrent : Option PairSession := p.current.filter (·.isReady)

def readyNext : Option PairSession := p.next.filter (·.isReady)

/-- The session `current` replaced, while its grace lasts. -/
def gracedPrevious (now : Nat) (p : PeerSessions) : Option PairSession :=
  (p.previous.filter fun q => now - q.2 < previousGraceSecs).map (·.1)

def writeCurrent : PeerSessions := { p with current := some s }

def writeNext : PeerSessions := { p with next := some s }

def writePrevious : PeerSessions :=
  { p with previous := p.previous.map fun q => (s, q.2) }

def hit : Option (Except SealError Packet) → Option Packet
  | some (.ok v) => some v
  | _ => none

/-- `SessionTable::unseal_any`. -/
def unsealAnyInPlace (ctr : Nat) (msg : Option Message) (now : Nat) : EStateM SealError PeerSessions Packet := do
  let onCurrent ← trial readyCurrent writeCurrent ctr msg
  match hit onCurrent with
  | some v => return v
  | none =>
    let onNext ← trial readyNext writeNext ctr msg
    match hit onNext with
    | some v =>
      modify (·.promote now)
      return v
    | none =>
      let onPrevious ← trial (gracedPrevious now) writePrevious ctr msg
      match hit onPrevious with
      | some v => return v
      | none => throw (verdict (error? onCurrent ++ error? onNext ++ error? onPrevious))

end PeerSessions

/-- `SessionTable::unseal`. -/
def SessionTable.unsealInPlace (peer : NodeId) (ctr : Nat) (msg : Option Message) (now : Nat) :
    EStateM SealError SessionTable Packet := fun t =>
  match t.sessions[peer]? with
  | none => .error (.noSession peer) t
  | some p =>
    match unsealAnyInPlace ctr msg now p with
    | .ok v p' => .ok v (t.setEntry peer { p' with awaitingSince := none })
    | .error (.noSession _) p' => .error (.noSession peer) (t.setEntry peer p')
    | .error e p' => .error e (t.setEntry peer p')

namespace PeerSessions

variable {ctr now : Nat} {msg : Option Message} {p : PeerSessions} {slot : PeerSessions → Option PairSession}
  {write : PairSession → PeerSessions → PeerSessions}
variable (o : Option PairSession)

def Misses (ctr : Nat) (msg : Option Message) : Prop :=
  ∀ s ∈ o, ∀ opened, s.unsealFrame ctr msg ≠ .ok opened

def tried (ctr : Nat) (msg : Option Message) : Option (Except SealError Packet) :=
  o.map fun s => (s.unsealFrame ctr msg).map Prod.snd

variable {s s' : PairSession} {v : Packet}

theorem trial_of_ok (hslot : slot p = some s) (hopen : s.unsealFrame ctr msg = .ok (s', v)) :
    trial slot write ctr msg p = .ok (some (.ok v)) (write s' p) := by
  unfold trial
  rw [hslot]
  simp only [unsealInPlace_eq, hopen]
  rfl

theorem trial_of_misses (hmiss : Misses (slot p) ctr msg) (hback : ∀ s, slot p = some s → write s p = p) :
    trial slot write ctr msg p = .ok (tried (slot p) ctr msg) p := by
  unfold trial tried
  cases hslot : slot p with
  | none => rfl
  | some s =>
    simp only [unsealInPlace_eq, map_some]
    cases hopen : s.unsealFrame ctr msg with
    | ok opened => exact absurd hopen (hmiss s hslot opened)
    | error e =>
      simp only [Except.map, settle]
      rw [hback s hslot]

theorem hit_of_misses {o : Option PairSession} (hmiss : Misses o ctr msg) : hit (tried o ctr msg) = none := by
  cases o with
  | none => rfl
  | some s =>
    cases hopen : s.unsealFrame ctr msg with
    | ok opened => exact absurd hopen (hmiss s rfl opened)
    | error e =>
      simp only [tried, map_some, hopen]
      rfl

theorem writeCurrent_back (h : p.readyCurrent = some s) : writeCurrent s p = p := by
  have hcurrent : p.current = some s := (filter_eq_some_iff.mp h).1
  rw [writeCurrent, ← hcurrent]

theorem writeNext_back (h : p.readyNext = some s) : writeNext s p = p := by
  have hnext : p.next = some s := (filter_eq_some_iff.mp h).1
  rw [writeNext, ← hnext]

theorem writePrevious_back (h : p.gracedPrevious now = some s) : writePrevious s p = p := by
  obtain ⟨q, hq, rfl⟩ := map_eq_some_iff.mp h
  have hprevious : p.previous = some q := (filter_eq_some_iff.mp hq).1
  rw [writePrevious, hprevious, map_some, ← hprevious]

/-! ### The four ways a trial of all sessions ends -/

theorem unsealAnyInPlace_current (hcurrent : p.readyCurrent = some s)
    (hopen : s.unsealFrame ctr msg = .ok (s', v)) :
    unsealAnyInPlace ctr msg now p = .ok v { p with current := some s' } := by
  unfold unsealAnyInPlace
  rw [bind_of_ok (trial_of_ok hcurrent hopen)]
  rfl

theorem unsealAnyInPlace_next (hmiss : Misses p.readyCurrent ctr msg) (hnext : p.readyNext = some s)
    (hopen : s.unsealFrame ctr msg = .ok (s', v)) :
    unsealAnyInPlace ctr msg now p = .ok v ({ p with next := some s' }.promote now) := by
  unfold unsealAnyInPlace
  rw [bind_of_ok (trial_of_misses hmiss fun _ => writeCurrent_back), hit_of_misses hmiss]
  dsimp only
  rw [bind_of_ok (trial_of_ok hnext hopen)]
  rfl

theorem unsealAnyInPlace_previous (hmiss : Misses p.readyCurrent ctr msg) (hmiss' : Misses p.readyNext ctr msg)
    (hprevious : p.gracedPrevious now = some s) (hopen : s.unsealFrame ctr msg = .ok (s', v)) :
    unsealAnyInPlace ctr msg now p = .ok v (writePrevious s' p) := by
  unfold unsealAnyInPlace
  rw [bind_of_ok (trial_of_misses hmiss fun _ => writeCurrent_back), hit_of_misses hmiss]
  dsimp only
  rw [bind_of_ok (trial_of_misses hmiss' fun _ => writeNext_back), hit_of_misses hmiss']
  dsimp only
  rw [bind_of_ok (trial_of_ok hprevious hopen)]
  rfl

theorem unsealAnyInPlace_none (hmiss : Misses p.readyCurrent ctr msg) (hmiss' : Misses p.readyNext ctr msg)
    (hmiss'' : Misses (p.gracedPrevious now) ctr msg) :
    unsealAnyInPlace ctr msg now p = .error (verdict (error? (tried p.readyCurrent ctr msg) ++
      error? (tried p.readyNext ctr msg) ++ error? (tried (p.gracedPrevious now) ctr msg))) p := by
  unfold unsealAnyInPlace
  rw [bind_of_ok (trial_of_misses hmiss fun _ => writeCurrent_back), hit_of_misses hmiss]
  dsimp only
  rw [bind_of_ok (trial_of_misses hmiss' fun _ => writeNext_back), hit_of_misses hmiss']
  dsimp only
  rw [bind_of_ok (trial_of_misses hmiss'' fun _ => writePrevious_back), hit_of_misses hmiss'']
  rfl

theorem error?_map {α β : Type} (f : α → β) (o : Option (Except SealError α)) :
    error? (o.map (Except.map f)) = error? o := by
  rcases o with _ | _ | _ <;> rfl

theorem error?_tried :
    error? (tried o ctr msg) = error? (o.map fun s => s.unsealFrame ctr msg) := by
  rw [← error?_map Prod.snd, map_map]
  rfl

theorem error?_previous (o : Option (PairSession × Nat)) (ctr : Nat) (msg : Option Message) :
    error? (tried (o.map (·.1)) ctr msg) =
      error? (o.map fun q => (q.1.unsealFrame ctr msg).map fun r => ((r.1, q.2), r.2)) := by
  rw [error?_tried, map_map]
  cases o with
  | none => rfl
  | some q =>
    simp only [map_some, Function.comp_apply]
    cases q.1.unsealFrame ctr msg <;> rfl

theorem unsealAnyInPlace_eq (p : PeerSessions) (ctr : Nat) (msg : Option Message) (now : Nat) :
    unsealAnyInPlace ctr msg now p = settle p ((p.unsealAny ctr msg now).map Prod.swap) := by
  have hmisses {o : Option PairSession}
      (h : ∀ s v, (o.map fun s => s.unsealFrame ctr msg) = some (.ok (s, v)) → False) : Misses o ctr msg := by
    intro s hs opened hopen
    exact h opened.1 opened.2 (by rw [show o = some s from hs, map_some, hopen])
  unfold unsealAny
  dsimp only
  split
  · rename_i s' v hcurrent
    obtain ⟨s, hs, hopen⟩ := map_eq_some_iff.mp hcurrent
    exact unsealAnyInPlace_current hs hopen
  · rename_i hcurrent
    split
    · rename_i s' v hnext
      obtain ⟨s, hs, hopen⟩ := map_eq_some_iff.mp hnext
      exact unsealAnyInPlace_next (hmisses hcurrent) hs hopen
    · rename_i hnext
      split
      · rename_i q' v hprevious
        obtain ⟨q, hq, hopen⟩ := map_eq_some_iff.mp hprevious
        have hgraced : p.gracedPrevious now = some q.1 := by rw [gracedPrevious, hq, map_some]
        cases hframe : q.1.unsealFrame ctr msg with
        | error e =>
          rw [hframe] at hopen
          cases hopen
        | ok opened =>
          rw [hframe] at hopen
          cases hopen
          have hback : p.previous = some q := (filter_eq_some_iff.mp hq).1
          rw [unsealAnyInPlace_previous (hmisses hcurrent) (hmisses hnext) hgraced hframe, writePrevious, hback]
          rfl
      · rename_i hprevious
        have hmiss : Misses (p.gracedPrevious now) ctr msg := by
          intro s hs opened hopen
          obtain ⟨q, hq, rfl⟩ := map_eq_some_iff.mp hs
          exact hprevious (opened.1, q.2) opened.2 (by rw [hq, map_some, hopen]; rfl)
        have herrors := error?_previous (p.previous.filter fun q => now - q.2 < previousGraceSecs) ctr msg
        rw [unsealAnyInPlace_none (hmisses hcurrent) (hmisses hnext) hmiss, gracedPrevious, herrors, error?_tried,
          error?_tried]
        rfl

end PeerSessions

namespace SessionTable

variable {t : SessionTable} {peer : NodeId} {ctr now : Nat} {msg : Option Message}

theorem setEntry_self {p : PeerSessions} (h : t.sessions[peer]? = some p) : t.setEntry peer p = t := by
  have hsame : (t.setEntry peer p).sessions = t.sessions := by
    refine Std.ExtTreeMap.ext_getElem? fun a => ?_
    rw [sessions_setEntry]
    split_ifs with ha
    · exact ha ▸ h.symm
    · rfl
  exact congrArg (fun sessions => { t with sessions }) hsame

theorem unsealInPlace_settles (t : SessionTable) (peer : NodeId) (ctr : Nat) (msg : Option Message) (now : Nat) :
    Settles (unsealInPlace peer ctr msg now) t ((t.unsealFrame peer ctr msg now).map Prod.swap) := by
  unfold Settles unsealInPlace unsealFrame
  cases hp : t.sessions[peer]? with
  | none => rfl
  | some p =>
    simp only [unsealAnyInPlace_eq]
    cases p.unsealAny ctr msg now with
    | ok opened => rfl
    | error e => cases e <;> simp only [Except.map, settle, setEntry_self hp]

end SessionTable

/-! ### The main result -/

def PairSession.Authenticates (s : PairSession) (ctr : Nat) (msg : Option Message) : Prop :=
  ∃ transcript nonce plaintext, s.stage = .transport transcript nonce ∧
    msg = some (.sealed ⟨transcript, !s.initiator, ctr, plaintext⟩)

theorem PairSession.unsealFrame_changes {s s' : PairSession} {ctr : Nat} {msg : Option Message} {v : Packet}
    (h : s.unsealFrame ctr msg = .ok (s', v)) :
    s.isReady ∧ s.Authenticates ctr msg ∧ s' = { s with replay := s.replay.commit ctr } := by
  obtain ⟨transcript, nonce, hstage, -, hmsg, hs'⟩ := unsealFrame_eq_ok h
  exact ⟨by simp [isReady, hstage], ⟨transcript, nonce, v, hstage, hmsg⟩, hs'⟩

namespace PeerSessions

variable {p : PeerSessions} {ctr now : Nat} {msg : Option Message}
variable {o : Option PairSession}

theorem misses_of_slots (h : ∀ s ∈ p.slots, ¬ s.Authenticates ctr msg) (ho : ∀ s ∈ o, s ∈ p.slots) : Misses o ctr msg := by
  intro s hs opened hopen
  exact h s (ho s hs) (unsealFrame_changes hopen).2.1

theorem Misses.filter (h : Misses o ctr msg) (kept : PairSession → Bool) :
    Misses (o.filter kept) ctr msg :=
  fun s hs => h s (filter_eq_some_iff.mp hs).1

end PeerSessions

namespace SessionTable

variable {t : SessionTable} {peer : NodeId} {p : PeerSessions} {ctr now : Nat} {msg : Option Message}

theorem unsealInPlace_of_ok {p' : PeerSessions} {v : Packet} (hp : t.sessions[peer]? = some p)
    (h : unsealAnyInPlace ctr msg now p = .ok v p') :
    unsealInPlace peer ctr msg now t = .ok v (t.setEntry peer { p' with awaitingSince := none }) := by
  unfold unsealInPlace
  simp [hp, h]

theorem unsealInPlace_of_error {e : SealError} (hp : t.sessions[peer]? = some p)
    (h : unsealAnyInPlace ctr msg now p = .error e p) :
    ∃ e', unsealInPlace peer ctr msg now t = .error e' t := by
  unfold unsealInPlace
  simp only [hp, h]
  cases e <;> simp only [setEntry_self hp] <;> exact ⟨_, rfl⟩

theorem unsealInPlace_of_slots (now : Nat)
    (h : ∀ p, t.sessions[peer]? = some p → ∀ s ∈ p.slots, ¬ s.Authenticates ctr msg) :
    ∃ e, unsealInPlace peer ctr msg now t = .error e t := by
  cases hp : t.sessions[peer]? with
  | none =>
    refine ⟨.noSession peer, ?_⟩
    unfold unsealInPlace
    rw [hp]
  | some p =>
    have hmiss {o : Option PairSession} (ho : ∀ s ∈ o, s ∈ p.slots) : Misses o ctr msg :=
      misses_of_slots (h p hp) ho
    have hcurrent : Misses p.current ctr msg := hmiss fun s hs => mem_slots.mpr (.inl hs)
    have hnext : Misses p.next ctr msg :=
      hmiss fun s hs => mem_slots.mpr (.inr (.inl hs))
    have hprevious : Misses (p.gracedPrevious now) ctr msg := by
      refine hmiss fun s hs => mem_slots.mpr (.inr (.inr ?_))
      obtain ⟨q, hq, rfl⟩ := map_eq_some_iff.mp hs
      exact ⟨q.2, (filter_eq_some_iff.mp hq).1⟩
    exact unsealInPlace_of_error hp
      (unsealAnyInPlace_none (hcurrent.filter _) (hnext.filter _) hprevious)

/-- Whatever the sessions: a frame that no session of the peer authenticates fails and changes nothing, and so does
every frame that fails. One that the session in use opens, or else the one before it, changes that session's window
and ends the wait for word from the peer. One that opens the replacement makes it the session in use; a session that
was in use is kept as retired now. -/
theorem forged_frames_inert (t : SessionTable) (peer : NodeId) (ctr : Nat) (msg : Option Message) (now : Nat) :
    ((∀ p, t.sessions[peer]? = some p → ∀ s ∈ p.slots, ¬ s.Authenticates ctr msg) →
      ∃ e, unsealInPlace peer ctr msg now t = .error e t) ∧
    (∀ e t', unsealInPlace peer ctr msg now t = .error e t' → t' = t) ∧
    ∀ p, t.sessions[peer]? = some p → ∀ s s' v, s.unsealFrame ctr msg = .ok (s', v) →
      s' = { s with replay := s.replay.commit ctr } ∧
      (p.current = some s → unsealInPlace peer ctr msg now t =
        .ok v (t.setEntry peer { p with current := some s', awaitingSince := none })) ∧
      (Misses p.current ctr msg → p.next = some s → unsealInPlace peer ctr msg now t =
        .ok v (t.setEntry peer { p with
          current := some s'
          next := none
          previous := ((p.current.filter (·.isReady)).map fun old => (old, now)).or p.previous
          awaitingSince := none })) ∧
      (Misses p.current ctr msg → Misses p.next ctr msg →
        ∀ retired, p.previous = some (s, retired) → now - retired < previousGraceSecs →
          unsealInPlace peer ctr msg now t =
            .ok v (t.setEntry peer { p with previous := some (s', retired), awaitingSince := none })) := by
  refine ⟨unsealInPlace_of_slots now, fun e t' h => ((unsealInPlace_settles t peer ctr msg now).error_iff.mp h).2,
    fun p hp s s' v hopen => ?_⟩
  obtain ⟨hready, -, hs'⟩ := unsealFrame_changes hopen
  refine ⟨hs', fun hcurrent => ?_, fun hmiss hnext => ?_, fun hmiss hmiss' retired hprevious hgrace => ?_⟩
  · have hslot : p.readyCurrent = some s := filter_eq_some_iff.mpr ⟨hcurrent, hready⟩
    exact unsealInPlace_of_ok hp (unsealAnyInPlace_current hslot hopen)
  · have hslot : p.readyNext = some s := filter_eq_some_iff.mpr ⟨hnext, hready⟩
    exact unsealInPlace_of_ok hp (unsealAnyInPlace_next (hmiss.filter _) hslot hopen)
  · have hslot : p.gracedPrevious now = some s := by
      rw [gracedPrevious, hprevious, filter_some, if_pos (decide_eq_true hgrace), map_some]
    rw [unsealInPlace_of_ok hp (unsealAnyInPlace_previous (hmiss.filter _) (hmiss'.filter _) hslot hopen),
      writePrevious, hprevious]
    rfl

open TimedEngine.SilenceExample in
/-- The first frame on the session node 1 answered with: it takes over, and the old one is retired. -/
example : ((waiting.engine.sessions.unsealFrame 2 0 (some (.sealed ⟨⟨asked, 6⟩, true, 0, []⟩)) 101).toOption.bind
    (·.1.sessions[2]?)).map (fun p => (p.current.map (·.first), p.next, p.previous.map (·.2))) =
      some (some asked, none, some 101) := by decide +kernel

end SessionTable

end Nqvpn
